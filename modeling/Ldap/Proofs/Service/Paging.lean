import Ldap.Proofs.Control.Paged
import Ldap.Proofs.Directory.Search
import Ldap.Proofs.Service.Preview
import Ldap.Proofs.Service.Response
import Ldap.Proofs.Service.Sorting
import Ldap.Proofs.Text.Numeral

/-! Walking through the pages of a search. A client asks for page after page, each time with the cookie of the page
before, until it is given none. Whoever answers, and whatever size each page has, the pages together are the list
that the search finds, in order, and the walk is as short as its pages allow. -/

namespace Ldap

open Ber (utf8Bytes)
open Text (isDigit_of_mem_toDigits readDigits_eq_ok_iff readNat_of_digits)

/-! ### Cookies -/

theorem length_utf8Bytes_ofList_le (cs : List Char) : (utf8Bytes (String.ofList cs)).length ≤ 4 * cs.length := by
  rw [Ber.length_utf8Bytes, ← String.size_toByteArray, String.toByteArray_ofList]
  induction cs with
  | nil => exact Nat.le_refl _
  | cons c cs ih =>
    have hc := c.utf8Size_le_four
    have hone : [c].utf8Encode.size = c.utf8Size := by simp [List.utf8Encode]
    rw [List.utf8Encode_cons, ByteArray.size_append, hone, List.length_cons]
    omega

theorem utf8Bytes_toString_ne_nil (n : Nat) : utf8Bytes (toString n) ≠ [] := by
  rw [← List.length_pos_iff, Ber.length_utf8Bytes, Nat.pos_iff_ne_zero, Ne, String.utf8ByteSize_eq_zero_iff,
    Nat.toString_eq_ofList_toDigits]
  simp

/-- The cookie of an offset resumes from the offset, if it is a number of 64 bits. -/
theorem offsetOf_eq_ok_iff (n o : Nat) :
    offsetOf (utf8Bytes (toString n)) = .ok o ↔ o = n ∧ n ≤ Text.maxNat64 := by
  have hbytes : (utf8Bytes (toString n)).isEmpty = false :=
    List.isEmpty_eq_false_iff.mpr (utf8Bytes_toString_ne_nil n)
  have hread : Text.readDigits Text.maxNat64 0 (Nat.toDigits 10 n) = .ok o ↔ o = n ∧ n ≤ Text.maxNat64 := by
    rw [readDigits_eq_ok_iff (Nat.zero_le _), Nat.ofDigitChars_ten_toDigits, and_iff_right isDigit_of_mem_toDigits]
    exact and_congr_right fun h => by rw [h]
  rw [offsetOf, hbytes, if_neg Bool.false_ne_true, Ber.utf8Text?_utf8Bytes, Option.bind_some,
    Nat.toString_eq_ofList_toDigits, String.toList_ofList,
    readNat_of_digits isDigit_of_mem_toDigits Nat.toDigits_ne_nil, ← hread]
  cases Text.readDigits Text.maxNat64 0 (Nat.toDigits 10 n) <;> simp [Except.toOption]

theorem offsetOf_le {cookie : List UInt8} {o : Nat} (h : offsetOf cookie = .ok o) : o ≤ Text.maxNat64 := by
  unfold offsetOf at h
  split at h
  · cases h
    exact Nat.zero_le _
  · split at h
    · cases h
      rename_i hread
      obtain ⟨s, -, hs⟩ := Option.bind_eq_some_iff.mp hread
      have hok : Text.readNat Text.maxNat64 s.toList = .ok o := by
        cases hr : Text.readNat Text.maxNat64 s.toList <;> simp_all [Except.toOption]
      unfold Text.readNat at hok
      split at hok
      · cases hok
      · cases hok
      · exact ((readDigits_eq_ok_iff (Nat.zero_le _)).mp hok).2.2
      · exact ((readDigits_eq_ok_iff (Nat.zero_le _)).mp hok).2.2
    · cases h

/-- What is known of a page that was found. -/
theorem pageOf_eq_ok {size : Int32} {cookie next : List UInt8} {total : Nat} {window : Window}
    (h : pageOf size cookie total = .ok (window, next)) (hs : 1 ≤ size) : ∃ o stop, offsetOf cookie = .ok o ∧
      window = ⟨min o total, stop⟩ ∧ stop = min (min o total + countOf size) total ∧ 0 < countOf size ∧
      next = if stop < total then utf8Bytes (toString stop) else [] := by
  have hsize : 0 < countOf size := by
    have := Int32.le_iff_toInt_le.mp hs
    unfold countOf
    change 1 ≤ size.toInt at this
    omega
  unfold pageOf at h
  obtain ⟨o, ho, h⟩ := Except.bind_eq_ok_iff.mp h
  dsimp only at h
  rw [if_neg (Nat.pos_iff_ne_zero.mp hsize)] at h
  cases h
  exact ⟨o, _, ho, rfl, rfl, hsize, rfl⟩

/-- Cookies are short, as an offset is a number of 64 bits and a page has a size of 32. -/
theorem length_next_le {size : Int32} {cookie next : List UInt8} {total : Nat} {window : Window}
    (h : pageOf size cookie total = .ok (window, next)) : next.length ≤ 128 := by
  unfold pageOf at h
  obtain ⟨o, ho, h⟩ := Except.bind_eq_ok_iff.mp h
  have hle := offsetOf_le ho
  have hsize : countOf size < 2 ^ 31 := by
    have := size.toInt_lt
    unfold countOf
    omega
  dsimp only at h
  split at h
  · cases h
    exact Nat.zero_le _
  · cases h
    split
    · rw [Nat.toString_eq_ofList_toDigits]
      refine (length_utf8Bytes_ofList_le _).trans ?_
      have hdigits : (Nat.toDigits 10 (min (min o total + countOf size) total)).length ≤ 20 := by
        rw [Nat.length_toDigits_le_iff (by decide) (by decide)]
        unfold Text.maxNat64 at hle
        omega
      omega
    · exact Nat.zero_le _

/-! ### One page -/

namespace Service

variable {s : Service} {c : Connection} {d d' : Directory} {r : SearchRequest} {a : Admitted} {id : Int32}
  {size : Int32} {cookie next : List UInt8} {critical : Bool} {before after : List Control} {full : List Entry}
  {entries : List ResultEntry}

/-- All that a search finds, sorted if there are keys to sort by. -/
def listing (d : Directory) (r : SearchRequest) (keys? : Option (List SortKey)) : Except Failure (List Entry) := do
  let found ← d.search r.base r.scope r.filter
  return match keys? with
    | none => found
    | some keys => sortByKeys keys found

/-- The search, asking for a page among other controls. -/
def pageRequest (r : SearchRequest) (before after : List Control) (id size : Int32) (critical : Bool)
    (cookie : List UInt8) : Message :=
  { id, op := .searchRequest r, controls := before ++ Admitted.pageControl size cookie critical :: after }

/-- The entry that a response to a search holds. -/
def entry? (m : Message) : Option ResultEntry :=
  match m.op with
  | .searchResultEntry e => some e
  | _ => none

/-- The cookie that a response carries, empty if it carries none. -/
def cookieOf (m : Message) : List UInt8 :=
  match (m.controls.find? (·.oid == ControlKind.pagedResults.oid)).bind fun c => (c.decode .pagedResults).toOption with
  | some (.pagedResults _ cookie) => cookie
  | _ => []

/-- The page that a request was answered with, and the cookie for the next one. There is none unless the request
had success. -/
def page? : Handled → Option (List ResultEntry × List UInt8)
  | .answered replies =>
    if finalCode replies = some .success then
      some (replies.filterMap entry?, (replies.getLast?.map cookieOf).getD [])
    else none
  | _ => none

theorem handle_search {m : Message} (hm : m.op = .searchRequest r) : (s.handle c m).1 =
    .answered (messages m.id .search (.ofExcept (s.gate c .search m.controls >>= s.search r))) := by
  have hends : (s.ending c .search m).1 = .ofExcept (s.gate c .search m.controls >>= s.search r) := by
    rw [ending, if_neg (by decide : Operation.search ≠ .bind), process, hm]
    cases s.gate c .search m.controls <;> rfl
  rw [handle_fst (show m.op.operation? = some .search by rw [hm]; rfl), hends, if_neg]
  intro h
  cases hs : s.gate c .search m.controls >>= s.search r <;> rw [hs] at h <;> cases h

/-- A search that succeeded passed the gate and was carried out. -/
theorem answered_of_page? (h : page? (s.handle c (pageRequest r before after id size critical cookie)).1 =
    some (entries, next)) : ∃ a replies,
      Admitted.ofControls .search (before ++ Admitted.pageControl size cookie critical :: after) = .ok a ∧
      s.search r a = .ok replies ∧
      page? (.answered (messages id .search (.answered replies))) = some (entries, next) := by
  have hfailed : ∀ f : Failure, page? (.answered (messages id .search (.failed f))) = none := fun f =>
    if_neg fun hf => f.code_ne.1 (Option.some.inj hf)
  rw [handle_search rfl] at h
  cases hs : s.gate c .search (pageRequest r before after id size critical cookie).controls >>= s.search r with
  | error f =>
    rw [hs] at h
    exact absurd ((hfailed f).symm.trans h) nofun
  | ok replies =>
    rw [hs] at h
    obtain ⟨a, hg, hs⟩ := Except.bind_eq_ok_iff.mp hs
    exact ⟨a, replies, ofControls_of_gate hg, hs, h⟩

theorem truncate_of_success {f : Found} {limit : Nat} (h : (f.truncate limit).result.code = .success) :
    f.truncate limit = f := by
  unfold Found.truncate at h ⊢
  split
  · rw [if_pos ‹_›] at h
    exact absurd h (by change ResultCode.sizeLimitExceeded ≠ _; decide)
  · rfl

theorem finalCode_append {ms : List Message} {m : Message} {result : Result} (h : m.op = .searchResultDone result) :
    finalCode (ms ++ [m]) = some result.code := by
  rw [finalCode, List.getLast?_concat, Option.bind_some, h]
  rfl

/-- The replies to a search, as messages. -/
theorem page?_found {found : Found} : page? (.answered (messages id .search (.answered
    (found.entries.map (fun e => ⟨.searchResultEntry (e.toResult r.attributes r.typesOnly), []⟩)
      ++ [⟨.searchResultDone found.result, found.controls⟩])))) =
    if found.result.code = .success then
      some (found.entries.map (·.toResult r.attributes r.typesOnly),
        cookieOf { id, op := .searchResultDone found.result, controls := found.controls })
    else none := by
  simp only [messages, List.map_append, List.map_cons, List.map_nil, page?]
  rw [finalCode_append rfl, List.getLast?_concat]
  simp [List.filterMap_append, List.filterMap_map, List.filterMap_cons, entry?, Function.comp_def]

theorem search_found {replies : List Reply} (h : s.search r a = .ok replies) : ∃ found paged : Found, ∃ limit total,
    s.directory.search r.base r.scope r.filter = .ok found.entries ∧ found.controls = [] ∧
      (found.sort a).page a = .ok paged ∧ replies =
        (((paged.view a total).truncate limit).entries.map
          fun e => (⟨.searchResultEntry (e.toResult r.attributes r.typesOnly), []⟩ : Reply)) ++
        [⟨.searchResultDone ((paged.view a total).truncate limit).result,
          ((paged.view a total).truncate limit).controls⟩] := by
  unfold search at h
  split at h <;> simp only [Except.bind_eq_ok_iff] at h
  · obtain ⟨_, _, _, _, found, hf, paged, hp, h⟩ := h
    exact ⟨{ entries := found }, paged, _, _, hf, rfl, hp, (Except.ok.inj h).symm⟩
  · obtain ⟨found, hf, paged, hp, h⟩ := h
    exact ⟨{ entries := found }, paged, _, _, hf, rfl, hp, (Except.ok.inj h).symm⟩

theorem listing_eq (a : Admitted) (found : Found) (h : d.search r.base r.scope r.filter = .ok found.entries) :
    listing d r a.sortKeys? = .ok (found.sort a).entries := by
  rw [listing, h, Except.ok_bind, Found.sort]
  cases a.sortKeys? <;> rfl

/-- The answer to a request for a page comes behind that to a request for sorting. -/
theorem cookieOf_paged {found : Found} (hf : found.controls = []) (estimate : Int32) (hn : next.length ≤ 128)
    (op : Op) :
    cookieOf { id, op, controls := (found.sort a).controls ++ [Control.pagedResults estimate next] } = next := by
  have hfind : ((found.sort a).controls ++ [Control.pagedResults estimate next]).find?
      (·.oid == ControlKind.pagedResults.oid) = some (Control.pagedResults estimate next) := by
    have hsorted : ∀ code, (Control.sorted code).oid ≠ ControlKind.pagedResults.oid := fun code =>
      show Control.sortResponseOid ≠ _ by decide
    have hpaged : (Control.pagedResults estimate next).oid = ControlKind.pagedResults.oid := rfl
    rw [Found.sort]
    cases a.sortKeys? <;> simp [hf, hsorted, hpaged]
  rw [cookieOf, hfind, Option.bind_some, Control.decode_page estimate next rfl hn]
  rfl

/-- A search for a page that succeeds is answered with the page of all that it finds, and with its cookie. -/
theorem page?_eq_some (h : page? (s.handle c (pageRequest r before after id size critical cookie)).1 =
    some (entries, next)) (hc : cookie.length ≤ 128) : ∃ full window,
      listing s.directory r (Admitted.sortKeysOf (before ++ after)) = .ok full ∧
      pageOf size cookie full.length = .ok (window, next) ∧
      entries = (window.select full).map (·.toResult r.attributes r.typesOnly) := by
  obtain ⟨a, replies, ha, hs, hpage⟩ := answered_of_page? h
  obtain ⟨hp, hk, hv⟩ := Admitted.pages_of_ofControls ha hc
  obtain ⟨found, paged, limit, total, hsearch, hcontrols, hpaged, rfl⟩ := search_found hs
  rw [Found.view, hv, page?_found] at hpage
  dsimp only at hpage
  split at hpage
  · rename_i hsuccess
    rw [truncate_of_success hsuccess] at hpage
    unfold Found.page at hpaged
    rw [hp] at hpaged
    obtain ⟨⟨window, next'⟩, hpageOf, hpaged⟩ := Except.bind_eq_ok_iff.mp hpaged
    cases hpaged
    obtain ⟨rfl, hnext⟩ := Prod.mk.inj (Option.some.inj hpage)
    rw [cookieOf_paged hcontrols _ (length_next_le hpageOf)] at hnext
    subst hnext
    exact ⟨(found.sort a).entries, window, hk ▸ listing_eq a found hsearch, hpageOf, rfl⟩
  · cases hpage

/-- Pages are given to those who ask for them, so far as they are admitted and the entries are not too many. -/
theorem page?_of_listing (hg : s.gate c .search (before ++ Admitted.pageControl size cookie critical :: after) = .ok a)
    (ha : a.assertion? = none) (hl : listing s.directory r (Admitted.sortKeysOf (before ++ after)) = .ok full)
    {window : Window} (hp : pageOf size cookie full.length = .ok (window, next)) (hc : cookie.length ≤ 128)
    (hlimit : smallerLimit (countOf r.sizeLimit) s.settings.maxSizeLimit = 0 ∨
      (window.select full).length ≤ smallerLimit (countOf r.sizeLimit) s.settings.maxSizeLimit) :
    page? (s.handle c (pageRequest r before after id size critical cookie)).1 =
      some ((window.select full).map (·.toResult r.attributes r.typesOnly), next) := by
  obtain ⟨hpage, hk, hv⟩ := Admitted.pages_of_ofControls (ofControls_of_gate hg) hc
  obtain ⟨found, hf, hfull⟩ := Except.bind_eq_ok_iff.mp hl
  have hsorted : (Found.sort { entries := found } a).entries = full := by
    have h := listing_eq a { entries := found } hf
    rw [hk, hl] at h
    exact (Except.ok.inj h).symm
  have hresult : (Found.sort { entries := found } a).result = .success := by
    rw [Found.sort]
    cases a.sortKeys? <;> rfl
  let paged : Found := ⟨window.select full, .success,
    (Found.sort { entries := found } a).controls ++ [Control.pagedResults (clampCount full.length) next]⟩
  have hpaged : (Found.sort { entries := found } a).page a = .ok paged := by
    unfold Found.page
    rw [hpage]
    dsimp only
    rw [hsorted, hp, hresult]
    rfl
  have hkept : paged.truncate (smallerLimit (countOf r.sizeLimit) s.settings.maxSizeLimit) = paged := by
    rw [Found.truncate, if_neg]
    change ¬ (0 < _ ∧ _ < (window.select full).length)
    omega
  have hsearch : s.search r a =
      .ok (paged.entries.map (fun e => ⟨.searchResultEntry (e.toResult r.attributes r.typesOnly), []⟩) ++
        [⟨.searchResultDone paged.result, paged.controls⟩]) := by
    unfold search
    rw [ha, if_neg (by simp), hf, Except.ok_bind]
    dsimp only
    rw [hpaged, Except.ok_bind, Found.view, hv]
    dsimp only
    rw [hkept]
    rfl
  rw [handle_search rfl]
  change page? (.answered (messages id .search
    (.ofExcept (s.gate c .search (before ++ _ :: after) >>= s.search r)))) = _
  rw [hg, Except.ok_bind, hsearch, Outcome.ofExcept, page?_found, if_pos (show paged.result.code = .success from rfl),
    cookieOf_paged rfl _ (length_next_le hp)]

/-! ### All pages -/

theorem listing_of_alike {keys? : Option (List SortKey)} (h : d.Alike d') (hd : listing d r keys? = .ok full) :
    listing d' r keys? = .ok full := by
  obtain ⟨found, hf, hd⟩ := Except.bind_eq_ok_iff.mp hd
  rw [listing, h.search, hf]
  exact hd

theorem nodup_keys_listing {keys? : Option (List SortKey)} (h : listing d r keys? = .ok full) :
    (full.map Entry.key).Nodup := by
  obtain ⟨found, hf, h⟩ := Except.bind_eq_ok_iff.mp h
  have hn := Directory.nodup_keys_search hf
  cases keys? with
  | none =>
    cases h
    exact hn
  | some keys =>
    cases h
    exact ((sortByKeys_perm keys found).map Entry.key).nodup_iff.mpr hn

/-- One request of a walk: who answers it, on which connection, and what is particular to it. -/
structure Ask where
  service : Service
  connection : Connection := {}
  id : Int32
  size : Int32
  critical : Bool := false

inductive Ending where
  /-- There was no cookie for another page. -/
  | ended
  /-- A request did not have success. -/
  | refused
  /-- There was a cookie, and no request left to send with it. -/
  | unfinished
deriving DecidableEq

/-- The pages that a client was given, and how its walk ended. -/
structure Walk where
  pages : List (List ResultEntry)
  ending : Ending

/-- Asks for page after page, each time with the cookie of the page before. -/
def walk (r : SearchRequest) (before after : List Control) : List Ask → List UInt8 → Walk
  | [], _ => ⟨[], .unfinished⟩
  | ask :: asks, cookie =>
    match page? (ask.service.handle ask.connection
        (pageRequest r before after ask.id ask.size ask.critical cookie)).1 with
    | none => ⟨[], .refused⟩
    | some (entries, next) =>
      if next = [] then ⟨[entries], .ended⟩
      else
        let w := walk r before after asks next
        { w with pages := entries :: w.pages }

/-- A walk of at most so many requests through a list. -/
structure Walk.Covers (w : Walk) (requests : Nat) (l : List ResultEntry) : Prop where
  flatten : w.ending = .ended → w.pages.flatten = l
  length_le : w.ending = .ended → w.pages.length ≤ max 1 l.length
  ended : max 1 l.length ≤ requests → w.ending = .ended

theorem Walk.Covers.last (l : List ResultEntry) (requests : Nat) : Walk.Covers ⟨[l], .ended⟩ (requests + 1) l where
  flatten _ := by simp
  length_le _ := by simp
  ended _ := rfl

theorem Walk.Covers.cons {w : Walk} {requests : Nat} {page l : List ResultEntry} (h : w.Covers requests l)
    (hp : page ≠ []) (hl : l ≠ []) :
    Walk.Covers { w with pages := page :: w.pages } (requests + 1) (page ++ l) := by
  have hpage := List.length_pos_iff.mpr hp
  have hrest := List.length_pos_iff.mpr hl
  refine ⟨fun hw => ?_, fun hw => ?_, fun hw => ?_⟩
  · rw [List.flatten_cons, h.flatten hw]
  · have := h.length_le hw
    rw [List.length_cons, List.length_append]
    omega
  · rw [List.length_append] at hw
    exact h.ended (by omega)

/-- The cookie resumes from an offset, if it is accepted at all. -/
structure Resumes (cookie : List UInt8) (o : Nat) : Prop where
  eq : ∀ o', offsetOf cookie = .ok o' → o' = o
  length_le : cookie.length ≤ 128

theorem resumes_nil : Resumes [] 0 := ⟨fun _ h => (Except.ok.inj h).symm, Nat.zero_le _⟩

theorem resumes_toString {o : Nat} (h : (utf8Bytes (toString o)).length ≤ 128) : Resumes (utf8Bytes (toString o)) o :=
  ⟨fun o' ho' => ((offsetOf_eq_ok_iff o o').mp ho').1, h⟩

/-- From any place in the list, the pages that follow are the rest of the list. -/
theorem walk_from (hl : listing d r (Admitted.sortKeysOf (before ++ after)) = .ok full) {asks : List Ask} {o : Nat}
    (ho : o ≤ full.length) (hc : Resumes cookie o) (hd : ∀ ask ∈ asks, d.Alike ask.service.directory)
    (hs : ∀ ask ∈ asks, 1 ≤ ask.size) (hr : (walk r before after asks cookie).ending ≠ .refused) :
    (walk r before after asks cookie).Covers asks.length
      ((full.drop o).map (·.toResult r.attributes r.typesOnly)) := by
  induction asks generalizing cookie o with
  | nil => exact ⟨nofun, nofun, fun h => absurd h (by simp)⟩
  | cons ask asks ih =>
    obtain ⟨hask, hasks⟩ := List.forall_mem_cons.mp hd
    obtain ⟨hsize, hsizes⟩ := List.forall_mem_cons.mp hs
    rw [walk] at hr ⊢
    split
    · rename_i hpage
      rw [hpage] at hr
      exact absurd rfl hr
    · rename_i entries next hpage
      rw [hpage] at hr
      obtain ⟨full', window, hfull, hpageOf, rfl⟩ := page?_eq_some hpage hc.length_le
      obtain rfl : full = full' := Except.ok.inj ((listing_of_alike hask hl).symm.trans hfull)
      have hshort := length_next_le hpageOf
      obtain ⟨o', stop, ho', rfl, hstop, hpos, hnext⟩ := pageOf_eq_ok hpageOf hsize
      obtain rfl : o' = o := hc.eq o' ho'
      rw [Nat.min_eq_left ho] at hstop ⊢
      dsimp only at hr ⊢
      by_cases hlt : stop < full.length
      · rw [if_pos hlt] at hnext
        subst hnext
        rw [if_neg (utf8Bytes_toString_ne_nil stop)] at hr ⊢
        have hrest := ih (Nat.le_of_lt hlt) (resumes_toString hshort) hasks hsizes hr
        have hsplit : full.drop o' = (full.take stop).drop o' ++ full.drop stop := by
          rw [← List.drop_append_of_le_length (by rw [List.length_take]; omega), List.take_append_drop]
        rw [hsplit, List.map_append]
        refine hrest.cons ?_ ?_
        · rw [← List.length_pos_iff, Window.select, List.length_map, List.length_drop, List.length_take]
          dsimp only
          omega
        · rw [← List.length_pos_iff, List.length_map, List.length_drop]
          omega
      · have hall : stop = full.length := by omega
        rw [if_neg hlt] at hnext
        subst hnext hall
        rw [if_pos rfl, Window.select, List.take_length]
        exact .last _ _

/-- Whoever answers the requests of a walk, from a directory with the same entries, the pages of a walk that ended are
the list of all that the search finds, sorted as the request asks, and no entry is in them twice. A walk ends with the
first page or with as many as there are entries, if not before. -/
theorem walk_complete (d : Directory) (r : SearchRequest) (before after : List Control) (asks : List Ask)
    (hne : asks ≠ []) (hd : ∀ ask ∈ asks, d.Alike ask.service.directory) (hs : ∀ ask ∈ asks, 1 ≤ ask.size)
    (hr : (walk r before after asks []).ending ≠ .refused) :
    ∃ full, listing d r (Admitted.sortKeysOf (before ++ after)) = .ok full ∧ (full.map Entry.key).Nodup ∧
      (walk r before after asks []).Covers asks.length (full.map (·.toResult r.attributes r.typesOnly)) := by
  obtain ⟨ask, rest, rfl⟩ := List.exists_cons_of_ne_nil hne
  have hfirst : ∃ full, listing d r (Admitted.sortKeysOf (before ++ after)) = .ok full := by
    rw [walk] at hr
    split at hr
    · exact absurd rfl hr
    · rename_i entries next hpage
      obtain ⟨full, -, hfull, -⟩ := page?_eq_some hpage (Nat.zero_le _)
      exact ⟨full, listing_of_alike (hd ask List.mem_cons_self).symm hfull⟩
  obtain ⟨full, hfull⟩ := hfirst
  have hwalk := walk_from hfull (Nat.zero_le _) resumes_nil hd hs hr
  rw [List.drop_zero] at hwalk
  exact ⟨full, hfull, nodup_keys_listing hfull, hwalk⟩

/-- The second page comes from a store that keeps its entries in another order than that of the first. -/
theorem walk_complete_two :
    let a : Entry := .ofAttributes "cn=a,o=x" [.ofTexts "cn" ["a"]]
    let b : Entry := .ofAttributes "cn=b,o=x" [.ofTexts "cn" ["b"]]
    let d : Directory := { store := (Store.put {} a).put b, bases := ["o=x"] }
    let d' : Directory := { store := (Store.put {} b).put a, bases := ["o=x"] }
    let r : SearchRequest := { base := "", scope := .subtree, filter := .present "cn" }
    let s : Service := { directory := d, mechanisms := {}, settings := {} }
    let s' : Service := { directory := d', mechanisms := {}, settings := {} }
    let asks : List Ask := [{ service := s, id := 1, size := 1 }, { service := s', id := 2, size := 5 }]
    (walk r [] [] asks []).ending = .ended ∧ d.Alike d' ∧ ∃ full, listing d r none = .ok full ∧
      (full.map Entry.key).Nodup ∧ (walk r [] [] asks []).Covers 2 (full.map (·.toResult [] false)) := by
  intro a b d d' r s s' asks
  have hd : d.Alike d' := ⟨rfl, by decide +kernel⟩
  have hlisting : listing d r none = .ok [a, b] := by
    have hcandidates : d.candidates "" = .ok [a, b] := by decide +kernel
    have hfound : [a, b].filter (fun e => Directory.inScope r.scope (Dn.split r.base).length (Dn.split e.dn).length &&
        e.isMatch r.filter) = [a, b] := by decide +kernel
    have hsorted : Directory.sortByName [a, b] = [a, b] := Directory.sortByName_of_pairwise (by decide +kernel)
    have hsearch : d.search "" r.scope r.filter = .ok [a, b] := by
      rw [Directory.search_eq, if_neg (by decide), hcandidates, Except.ok_map, Directory.select, hfound, hsorted]
    rw [listing, hsearch]
    rfl
  have hended : (walk r [] [] asks []).ending = .ended := by
    have hgate : s.gate {} .search ([] ++ Admitted.pageControl 1 [] false :: []) =
        .ok ⟨[(Admitted.pageControl 1 [] false, .pagedResults 1 [])]⟩ := by decide +kernel
    have hgate' : s'.gate {} .search ([] ++ Admitted.pageControl 5 [0x31] false :: []) =
        .ok ⟨[(Admitted.pageControl 5 [0x31] false, .pagedResults 5 [0x31])]⟩ := by decide +kernel
    have hpage : pageOf 1 [] 2 = .ok (⟨0, 1⟩, [0x31]) := by decide +kernel
    have hpage' : pageOf 5 [0x31] 2 = .ok (⟨1, 2⟩, []) := by decide +kernel
    have hfirst : page? (s.handle {} (pageRequest r [] [] 1 1 false [])).1 = some ([a.toResult [] false], [0x31]) :=
      page?_of_listing hgate rfl hlisting hpage (by decide) (.inl rfl)
    have hsecond : page? (s'.handle {} (pageRequest r [] [] 2 5 false [0x31])).1 = some ([b.toResult [] false], []) :=
      page?_of_listing hgate' rfl (listing_of_alike hd hlisting) hpage' (by decide) (.inl rfl)
    rw [walk, hfirst]
    dsimp only
    rw [if_neg (by decide), walk, hsecond]
    rfl
  refine ⟨hended, hd, walk_complete d r [] [] asks (List.cons_ne_nil _ _) ?_ ?_ (by simp [hended])⟩
  · exact List.forall_mem_cons.mpr ⟨⟨rfl, .refl _⟩, List.forall_mem_singleton.mpr hd⟩
  · exact List.forall_mem_cons.mpr ⟨by decide, List.forall_mem_singleton.mpr (by decide)⟩

end Service
end Ldap
