import Ldap.Directory.Search
import Ldap.Text.Utf8

/-! Which of the entries found are returned, and in what order: sorting by keys, pages that are asked
for one after the other, and windows into a sorted list. -/

namespace Ldap

/-! ### Sorting -/

namespace SortKey

def smallest : List String → Option String
  | [] => none
  | s :: rest => some (rest.foldl (fun a b => if b < a then b else a) s)

def largest : List String → Option String
  | [] => none
  | s :: rest => some (rest.foldl (fun a b => if a < b then b else a) s)

/-- The value that an entry is sorted by, in lower case: the smallest, or the largest for a key in
reverse. -/
def valueOf (k : SortKey) (e : Entry) : Option String :=
  let values := (e.values k.name).map fun v => Text.lowercase (Text.ofBytesLossy v)
  if k.reverse then largest values else smallest values

def compareTexts (a b : String) : Ordering :=
  if a < b then .lt else if b < a then .gt else .eq

/-- The order of two values of a key. An entry without a value comes last in either direction. -/
def compareValues (k : SortKey) : Option String → Option String → Ordering
  | some a, some b => if k.reverse then compareTexts b a else compareTexts a b
  | some _, none => .lt
  | none, some _ => .gt
  | none, none => .eq

end SortKey

/-- The order of two entries by their values for several keys, each of which decides where those
before it do not. -/
def compareByKeys : List SortKey → List (Option String) → List (Option String) → Ordering
  | k :: keys, a :: as, b :: bs =>
    match k.compareValues a b with
    | .eq => compareByKeys keys as bs
    | decided => decided
  | _, _, _ => .eq

/-- Sorts entries by keys; those alike in all keys keep their order. -/
def sortByKeys (keys : List SortKey) (entries : List Entry) : List Entry :=
  let keyed := entries.map fun e => (keys.map fun k => k.valueOf e, e)
  (keyed.mergeSort fun a b => compareByKeys keys a.1 b.1 != .gt).map (·.2)

/-! ### Windows -/

/-- The positions from `start` up to `stop` of a list. -/
structure Window where
  start : Nat
  stop : Nat
deriving DecidableEq, Repr

def Window.select {α : Type} (w : Window) (l : List α) : List α :=
  (l.take w.stop).drop w.start

/-- A 32-bit number as a count; a negative one counts nothing. -/
def countOf (n : Int32) : Nat := n.toInt.toNat

/-- A count as a 32-bit number, or the largest of them. -/
def clampCount (n : Nat) : Int32 := Int32.ofInt (min n 0x7FFFFFFF)

/-- The offset that a cookie resumes from. An empty one starts at the beginning. -/
def offsetOf (cookie : List UInt8) : Except Failure Nat :=
  if cookie.isEmpty then .ok 0
  else match (Ber.utf8Text? cookie).bind fun s => (Text.readNat Text.maxNat64 s.toList).toOption with
    | some offset => .ok offset
    | none => .error .pageCookie

/-- The page of a search that a cookie and a size ask for, and the cookie of the next page: its offset
in decimal, or nothing once all entries were returned. A size of zero ends the search. -/
def pageOf (size : Int32) (cookie : List UInt8) (total : Nat) :
    Except Failure (Window × List UInt8) := do
  let offset := min (← offsetOf cookie) total
  if countOf size = 0 then return (⟨offset, offset⟩, [])
  let stop := min (offset + countOf size) total
  return (⟨offset, stop⟩, if stop < total then Ber.utf8Bytes (toString stop) else [])

/-- The position, from zero, that an offset into a list stands for. An offset into a list of another
size is scaled to the real one, to the nearest position. -/
def scaledIndex (offset contentCount total : Nat) : Nat :=
  let position :=
    if contentCount = 0 ∨ contentCount = total then offset
    else (offset * total + contentCount / 2) / contentCount
  max 1 (min position (max 1 total)) - 1

/-- Whether an entry does not come before a value in the order of a key. -/
def isAtOrBehind (k : SortKey) (value : String) (e : Entry) : Bool :=
  match k.valueOf e with
  | some v => if k.reverse then v ≤ value else value ≤ v
  | none => true

/-- The position of the target of a list view among sorted entries. There is none for an offset below
one, and none for a negative size of the list. -/
def targetIndex? (keys : List SortKey) (entries : List Entry) : ViewTarget → Option Nat
  | .byOffset offset contentCount =>
    if offset < 1 ∨ contentCount < 0 then none
    else some (scaledIndex (countOf offset) (countOf contentCount) entries.length)
  | .greaterOrEqual value =>
    keys.head?.map fun k =>
      entries.findIdx (isAtOrBehind k (Text.lowercase (Text.ofBytesLossy value)))

/-- The window of a list view, and the position of its target counted from one. -/
def viewOf (keys : List SortKey) (entries : List Entry) (v : ListView) : Option (Nat × Window) :=
  let total := entries.length
  (targetIndex? keys entries v.target).map fun index =>
    let stop := min (index + countOf v.after + 1) total
    (if total = 0 then 0 else index + 1, ⟨min (index - countOf v.before) stop, stop⟩)

/-- The smaller of two limits, where zero stands for no limit. -/
def smallerLimit (requested maximum : Nat) : Nat :=
  if requested = 0 then maximum else if maximum = 0 then requested else min requested maximum

end Ldap
