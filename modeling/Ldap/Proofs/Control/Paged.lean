import Ldap.Proofs.Control.Decision
import Ldap.Proofs.Control.Value
import Mathlib.Data.List.Pairwise

/-! The control that asks for a page of the results, and the one that answers it. Both have the same value, which is
read as it was written. Of a request that was admitted with such a control, the control says which page is asked
for, the sort control among the others says how the results are sorted, and no window of them is asked for. -/

namespace Ldap

open Ber (Item)

namespace Control

/-! ### Pages -/

theorem length_frame_le (tag : UInt8) (inner : List Ber.Cell) : (Item.frame tag inner).length ≤ inner.length + 10 := by
  have hle : (Ber.Length.encode inner.length).length ≤ 9 := by
    unfold Ber.Length.encode
    split
    · exact Nat.le_add_left _ _
    · have := (List.dropWhile_sublist (l := Ber.bigEndian 8 inner.length) (· == 0)).length_le
      rw [Ber.length_bigEndian] at this
      exact Nat.succ_le_succ this
  simp only [Item.frame, List.length_cons, List.length_append, Ber.Cell.length_later]
  omega

theorem length_pageItem_le (size : Int32) (cookie : List UInt8) :
    (pageItem size cookie).cells.length ≤ cookie.length + 34 := by
  have hint := length_frame_le Ber.integerTag (Ber.Cell.later (Ber.Integer.encode size.toInt64))
  have hlen := Ber.Integer.length_encode_int32_le size
  have hcookie := length_frame_le Ber.octetStringTag (Ber.Cell.later cookie)
  have hall := length_frame_le Ber.sequenceTag (Item.cellsAll [.ofInt32 size, .ofBytes cookie])
  simp only [Item.cellsAll, Item.ofInt32, Item.ofBytes, Item.cells, List.append_nil, List.length_append,
    Ber.Cell.length_later] at *
  simp only [pageItem, Item.sequence, Item.cells, Item.cellsAll, Item.ofInt32, Item.ofBytes, List.append_nil]
  omega

/-- Both the request for a page and the answer to it are read as they were written. -/
theorem decode_page {c : Control} (size : Int32) (cookie : List UInt8)
    (hv : c.value = some (pageItem size cookie).toBytes) (hc : cookie.length ≤ 128) :
    c.decode .pagedResults = .ok (.pagedResults size cookie) := by
  have hl := length_pageItem_le size cookie
  rw [Item.length_cells, ← Item.toBytes_eq_encode] at hl
  exact decodeValue_eq (fun _ => (reads_page size cookie).finds) (by unfold Ber.maxLength; omega) hv

end Control

/-! ### Requests for a page -/

namespace Admitted

open Control

variable {operation : Operation} {controls before after : List Control} {a : Admitted} {c : Control}
  {kind : ControlKind} {size : Int32} {cookie : List UInt8} {critical : Bool}

/-- Of controls that were admitted, those that apply have object identifiers of their own. -/
theorem eq_of_oid (h : NoneRefused operation controls) {b : Control} (hb : b ∈ controls) (hc : c ∈ controls)
    (ha : c.Applies operation kind) (ho : b.oid = c.oid) : b = c := by
  by_contra hne
  have : Std.Symm fun b c : Control => ∀ kind, c.Applies operation kind → b.oid ≠ c.oid :=
    ⟨fun b c hbc kind hb ho => hbc kind (hb.of_oid ho) ho.symm⟩
  exact (pairwise_of_noneRefused h).forall hb hc hne kind ha ho

/-- What is admitted of a kind is what the control of that kind is decoded to. -/
theorem get?_eq_some (h : ofControls operation controls = .ok a) (hc : c ∈ controls) (ha : c.Applies operation kind) :
    ∃ decoded, c.decode kind = .ok decoded ∧ a.get? kind.oid = some decoded := by
  obtain ⟨hn, hholds⟩ := holds_of_ofControls h
  have hcontains : a.contains kind := (hholds.contains_iff kind ha.1).mpr ⟨c, hc, ha⟩
  rw [contains_eq_isSome_held?] at hcontains
  obtain ⟨⟨b, decoded⟩, hheld⟩ := Option.isSome_iff_exists.mp hcontains
  obtain ⟨before, after, hsplit, ho, hm, -⟩ := (hholds.held?_iff kind.oid _).mp hheld
  obtain rfl : b = c := eq_of_oid hn (hsplit ▸ by simp) hc ha (ho.trans ha.2.1)
  refine ⟨decoded, ?_, by rw [get?_eq_map_held?, hheld]; rfl⟩
  cases hm with
  | applied kind' ha' _ hd => exact ha.unique ha' ▸ hd
  | internal hi => exact absurd hi ha.not_internal

theorem get?_eq_none (h : ofControls operation controls = .ok a) (hc : ∀ c ∈ controls, c.oid ≠ kind.oid) :
    a.get? kind.oid = none := by
  rw [get?_eq_map_held?, Option.map_eq_none_iff, Option.eq_none_iff_forall_ne_some]
  intro x hx
  obtain ⟨before, after, hsplit, ho, -⟩ := ((holds_of_ofControls h).2.held?_iff kind.oid x).mp hx
  exact hc x.1 (hsplit ▸ by simp) ho

/-- The keys that the sort control among some controls asks for. -/
def sortKeysOf (controls : List Control) : Option (List SortKey) :=
  match (controls.find? (·.oid == ControlKind.sort.oid)).bind fun c => (c.decode .sort).toOption with
  | some (.sort keys) => some keys
  | _ => none

theorem sortKeys?_eq (h : ofControls .search controls = .ok a) : a.sortKeys? = sortKeysOf controls := by
  have hget : a.get? ControlKind.sort.oid =
      (controls.find? (·.oid == ControlKind.sort.oid)).bind fun c => (c.decode .sort).toOption := by
    cases hf : controls.find? (·.oid == ControlKind.sort.oid) with
    | none => exact get?_eq_none h fun c hc => by simpa using List.find?_eq_none.mp hf c hc
    | some c =>
      have ho : c.oid = ControlKind.sort.oid := by simpa using List.find?_some hf
      obtain ⟨decoded, hd, hget⟩ := get?_eq_some h (List.mem_of_find?_eq_some hf)
        (show c.Applies .search .sort from ⟨by decide, ho.symm, by decide⟩)
      simp [hget, hd, Except.toOption]
  exact congrArg (fun decoded => match decoded with | some (.sort keys) => some keys | _ => none) hget

/-- The control that asks for a page of the results. -/
def pageControl (size : Int32) (cookie : List UInt8) (critical : Bool) : Control :=
  (RequestControl.pagedResults size cookie).toControl critical

theorem mem_pageControl : pageControl size cookie critical ∈ before ++ pageControl size cookie critical :: after := by
  simp

theorem applies_pageControl : (pageControl size cookie critical).Applies .search .pagedResults :=
  ⟨by decide, rfl, by decide⟩

/-- What a request for a page asks for, if it is admitted. -/
structure Pages (a : Admitted) (size : Int32) (cookie : List UInt8) (others : List Control) : Prop where
  page? : a.page? = some (size, cookie)
  sortKeys? : a.sortKeys? = sortKeysOf others
  listView? : a.listView? = none

theorem pages_of_ofControls (h : ofControls .search (before ++ pageControl size cookie critical :: after) = .ok a)
    (hc : cookie.length ≤ 128) : a.Pages size cookie (before ++ after) where
  page? := by
    obtain ⟨decoded, hd, hget⟩ := get?_eq_some h mem_pageControl applies_pageControl
    rw [decode_page size cookie rfl hc] at hd
    cases hd
    rw [Admitted.page?, hget]
  sortKeys? := by
    have hne : (pageControl size cookie critical).oid ≠ ControlKind.sort.oid := fun ho =>
      absurd (ControlKind.oid_injective (show ControlKind.pagedResults.oid = ControlKind.sort.oid from ho)) (by decide)
    rw [sortKeys?_eq h, sortKeysOf, sortKeysOf]
    simp [hne]
  listView? := by
    classical
    have hsends : Sends .search (before ++ pageControl size cookie critical :: after) .pagedResults :=
      ⟨_, mem_pageControl, applies_pageControl⟩
    have hok : ∀ e, ¬ Clash .search (before ++ pageControl size cookie critical :: after) e := by
      intro e he
      have herror := ofControls_error_iff.mpr (.inr ⟨(holds_of_ofControls h).1, he⟩)
      rw [h] at herror
      cases herror
    have hview : ∀ c ∈ before ++ pageControl size cookie critical :: after, c.oid ≠ ControlKind.listView.oid := by
      intro c hmem ho
      have hv : Sends .search (before ++ pageControl size cookie critical :: after) .listView :=
        ⟨c, hmem, by decide, ho.symm, by decide⟩
      exact hok _ (.pagedListView (fun hp => hok _ (.proxiedTwice hp)) hv hsends)
    rw [Admitted.listView?, get?_eq_none h hview]

end Admitted
end Ldap
