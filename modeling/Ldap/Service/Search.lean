import Ldap.Service.Gate
import Ldap.Service.Window

/-! Searches: the entries found, sorted and cut down as the controls of the request ask, and the
result that ends them. -/

namespace Ldap.Service

/-- The entries to be returned, with the result and the controls that follow them. -/
structure Found where
  entries : List Entry
  result : Result := .success
  controls : List Control := []

namespace Found

/-- Sorts the entries if the request asks for it. -/
def sort (f : Found) (a : Admitted) : Found :=
  match a.sortKeys? with
  | none => f
  | some keys =>
    { f with
      entries := sortByKeys keys f.entries
      controls := f.controls ++ [Control.sorted .success] }

/-- Keeps one page of the entries if the request asks for it. -/
def page (f : Found) (a : Admitted) : Except Failure Found := do
  match a.page? with
  | none => return f
  | some (size, cookie) =>
    let total := f.entries.length
    let (window, next) ← pageOf size cookie total
    return { f with
      entries := window.select f.entries
      controls := f.controls ++ [Control.pagedResults (clampCount total) next] }

def offsetOutOfRange : Result :=
  { code := .offsetRangeError, message := "the virtual list view offset must be at least one" }

/-- Keeps a window of the entries if the request asks for it. The total is that of all entries. -/
def view (f : Found) (a : Admitted) (total : Nat) : Found :=
  match a.listView? with
  | none => f
  | some v =>
    match viewOf (a.sortKeys?.getD []) f.entries v with
    | some (position, window) =>
      { f with
        entries := window.select f.entries
        controls := f.controls
          ++ [Control.listView (clampCount position) (clampCount total) .success] }
    | none =>
      { entries := [], result := offsetOutOfRange
        controls := f.controls ++ [Control.listView 0 (clampCount total) .offsetRangeError] }

def sizeExceeded (limit : Nat) : Result :=
  { code := .sizeLimitExceeded
    message := "the search matched more than " ++ toString limit ++ " entries" }

/-- Keeps no more entries than the limit, which is none if it is zero. -/
def truncate (f : Found) (limit : Nat) : Found :=
  if 0 < limit ∧ limit < f.entries.length then
    { f with entries := f.entries.take limit, result := sizeExceeded limit }
  else f

end Found

def search (s : Service) (r : SearchRequest) (a : Admitted) : Except Failure (List Reply) := do
  if a.assertion?.isSome then
    let base ← existing s.directory r.base
    checkAssertion a base
  let entries ← s.directory.search r.base r.scope r.filter
  let sorted := Found.sort { entries } a
  let paged ← sorted.page a
  let viewed := paged.view a entries.length
  let found := viewed.truncate (smallerLimit (countOf r.sizeLimit) s.settings.maxSizeLimit)
  return found.entries.map (fun e => ⟨.searchResultEntry (e.toResult r.attributes r.typesOnly), []⟩)
    ++ [⟨.searchResultDone found.result, found.controls⟩]

end Ldap.Service
