import Ldap.Proofs.Ber.Definite
import Ldap.Proofs.Ber.Element

/-! The elements inside a value. They are read off its front one after the other, each takes two bytes or more, and so
the number of bytes is a bound that the reading never meets: it ends where the value does, or with the first error. What
it takes for the elements are slices that follow one another and make up the value. Elements that were written one
behind the other are read back, since the length in front of each is written in the one shortest way. -/

namespace Ldap.Ber

open Length (Definite)

namespace Element

variable {e : Element} {tag : UInt8} {bytes value data : List UInt8} {slices : List (List UInt8)} {es : List Element}

/-! ### Reading to the end -/

theorem size_of_decodePrefix {n : Nat} (h : decodePrefix bytes = .ok (e, n)) : 2 ≤ n ∧ n ≤ bytes.length := by
  obtain ⟨header, rest, hd, rfl, rfl⟩ := decodePrefix_eq_ok_iff.mp h
  have hpos := hd.length_pos
  simp only [List.length_cons, List.length_append]
  omega

/-- A round of reading: an element off the front, and then those in what it left. -/
theorem decodeMany_succ (hne : bytes ≠ []) (count : Nat) : decodeMany (count + 1) bytes = (do
    let (first, consumed) ← decodePrefix bytes
    let rest ← decodeMany count (bytes.drop consumed)
    .ok (first :: rest)) := by
  obtain ⟨b, rest, rfl⟩ := List.exists_cons_of_ne_nil hne
  rfl

/-- Bounds on the number of elements do the same if there are no more bytes than any of them. -/
theorem decodeMany_congr {count count' : Nat} (h : bytes.length ≤ count) (h' : bytes.length ≤ count') :
    decodeMany count bytes = decodeMany count' bytes := by
  induction count generalizing bytes count' with
  | zero =>
    obtain rfl : bytes = [] := List.length_eq_zero_iff.mp (Nat.le_zero.mp h)
    cases count' <;> rfl
  | succ count ih =>
    by_cases hne : bytes = []
    · subst hne
      cases count' <;> rfl
    · obtain ⟨bound, rfl⟩ := Nat.exists_eq_add_one_of_ne_zero
        (Nat.ne_of_gt ((List.length_pos_iff.mpr hne).trans_le h'))
      rw [decodeMany_succ hne, decodeMany_succ hne]
      cases hfirst : decodePrefix bytes with
      | error error => rfl
      | ok x =>
        -- two bytes or more are gone, so what is left is below both bounds
        have hsize := size_of_decodePrefix hfirst
        have hrest : decodeMany count (bytes.drop x.2) = decodeMany bound (bytes.drop x.2) :=
          ih (by rw [List.length_drop]; omega) (by rw [List.length_drop]; omega)
        rw [Except.ok_bind, Except.ok_bind]
        dsimp only
        rw [hrest]

/-- The bound is never met: reading goes on for as long as there are bytes. -/
theorem elements_of_ne_nil (hne : value ≠ []) : elements ⟨tag, value⟩ = (do
    let (first, consumed) ← decodePrefix value
    let rest ← elements ⟨tag, value.drop consumed⟩
    .ok (first :: rest)) := by
  have hround : elements ⟨tag, value⟩ = decodeMany (value.length + 1) value :=
    decodeMany_congr (Nat.le_refl _) (Nat.le_succ _)
  rw [hround, decodeMany_succ hne]
  refine bind_congr fun x => ?_
  have hleft : elements ⟨tag, value.drop x.2⟩ = decodeMany value.length (value.drop x.2) :=
    decodeMany_congr (Nat.le_refl _) (by rw [List.length_drop]; exact Nat.sub_le _ _)
  dsimp only
  rw [hleft]

/-! ### Slices -/

/-- The data is cut up: each slice is as much of the data behind the slices before it as is taken for the element that
is read off its front. -/
inductive Cut : List UInt8 → List (List UInt8) → List Element → Prop
  | nil : Cut [] [] []
  | cons {e : Element} {es : List Element} {slice data : List UInt8} {slices : List (List UInt8)}
      (h : decodePrefix (slice ++ data) = .ok (e, slice.length)) (hdata : Cut data slices es) :
      Cut (slice ++ data) (slice :: slices) (e :: es)

namespace Cut

theorem slice_ne_nil {slice : List UInt8} (h : decodePrefix bytes = .ok (e, slice.length)) : slice ≠ [] := by
  have hsize := size_of_decodePrefix h
  exact List.ne_nil_of_length_pos (by omega)

theorem flatten_eq (h : Cut data slices es) : slices.flatten = data := by
  induction h with
  | nil => rfl
  | cons _ _ ih => rw [List.flatten_cons, ih]

theorem ne_nil (h : Cut data slices es) : ∀ slice ∈ slices, slice ≠ [] := by
  induction h with
  | nil => exact List.forall_mem_nil _
  | cons h _ ih => exact List.forall_mem_cons.mpr ⟨slice_ne_nil h, ih⟩

theorem elements_eq (h : Cut data slices es) : elements ⟨tag, data⟩ = .ok es := by
  induction h with
  | nil => rfl
  | @cons e es slice data slices h _ ih =>
    have hne : slice ++ data ≠ [] := List.append_ne_nil_of_left_ne_nil (slice_ne_nil h) data
    rw [elements_of_ne_nil hne, h, Except.ok_bind]
    dsimp only
    rw [List.drop_left' rfl, ih, Except.ok_bind]

end Cut

/-- Whole elements one behind the other are cut where one ends and the next begins. -/
theorem cut_flatten (h : List.Forall₂ (fun slice e => decode slice = .ok e) slices es) : Cut slices.flatten slices es := by
  induction h with
  | nil => exact .nil
  | cons he _ ih => exact .cons (decodePrefix_append_iff.mpr he) ih

theorem elements_eq_ok_iff : e.elements = .ok es ↔ ∃ slices, Cut e.value slices es := by
  constructor
  · intro h
    obtain ⟨slices, hvalue, hslices⟩ := decodeMany_eq_ok h (Nat.le_refl _)
    exact ⟨slices, hvalue ▸ cut_flatten hslices⟩
  · rintro ⟨slices, h⟩
    exact h.elements_eq

theorem cut_encode (h : ∀ e ∈ es, e.value.length ≤ maxLength) : Cut (es.flatMap encode) (es.map encode) es := by
  rw [List.flatMap_def]
  refine cut_flatten (List.forall₂_map_left_iff.mpr (List.forall₂_same.mpr fun e he => ?_))
  exact decode_encode (h e he)

end Element

/-! ### Lengths and elements -/

open Element (Cut)

/-- A length is written in the one shortest way, in as many bytes as are computed for it, and is read back from them
whatever follows. So elements that are written are read back, any number of them, and what is read as elements, in
whatever form their lengths are, has been cut into slices that are the whole of it. -/
theorem elements_cut :
    (∀ n < 2 ^ 64, (Length.encode n).length = Length.headerSize n ∧ Definite (Length.encode n) n ∧
      ∀ header, Definite header n → header = Length.encode n ∨ (Length.encode n).length < header.length) ∧
    (∀ n ≤ maxLength, ∀ tail, Length.decode (Length.encode n ++ tail) = .ok (n, Length.headerSize n)) ∧
    (∀ tag es, (∀ e ∈ es, e.value.length ≤ maxLength) →
      Element.elements ⟨tag, es.flatMap Element.encode⟩ = .ok es) ∧
    ∀ e es, Element.elements e = .ok es ↔
      ∃ slices, Cut e.value slices es ∧ slices.flatten = e.value ∧ ∀ slice ∈ slices, slice ≠ [] := by
  refine ⟨fun n hn => ⟨Length.length_encode hn, Length.definite_encode hn, fun header h => h.eq_or_lt hn⟩,
    fun n hn tail => ?_, fun tag es h => (Element.cut_encode h).elements_eq, fun e es => ?_⟩
  · have hsize : n < 2 ^ 64 := by
      unfold maxLength at hn
      omega
    rw [(Length.declares_encode hn).decode_append, Length.length_encode hsize]
  · rw [Element.elements_eq_ok_iff]
    constructor
    · rintro ⟨slices, h⟩
      exact ⟨slices, h, h.flatten_eq, h.ne_nil⟩
    · rintro ⟨slices, h, -⟩
      exact ⟨slices, h⟩

/-- A length just too large for one byte, with a zero in front of it in another form, and a text and a null behind one
another, the text under a longer header than it needs. -/
theorem elements_cut_padded :
    let value := [0x04, 0x82, 0x00, 0x01, 0x41, 0x05, 0x00]
    Definite [0x82, 0x00, 0x80] 128 ∧ (Length.encode 128).length < 3 ∧
      Length.decode (Length.encode 128 ++ [0x30]) = .ok (128, 2) ∧
      Element.elements ⟨0x30, [(⟨0x04, [0x41]⟩ : Element), ⟨0x05, []⟩].flatMap Element.encode⟩ =
        .ok [⟨0x04, [0x41]⟩, ⟨0x05, []⟩] ∧
      Element.elements ⟨0x30, value⟩ = .ok [⟨0x04, [0x41]⟩, ⟨0x05, []⟩] ∧
      ∃ slices, Cut value slices [⟨0x04, [0x41]⟩, ⟨0x05, []⟩] ∧ slices.flatten = value ∧
        ∀ slice ∈ slices, slice ≠ [] := by
  intro value
  obtain ⟨hlength, hread, hwritten, hcut⟩ := elements_cut
  have hdefinite : Definite [0x82, 0x00, 0x80] 128 := @Definite.long [0x00, 0x80] (by decide) (by decide)
  have hother := (hlength 128 (by decide)).2.2 _ hdefinite
  have helements : Element.elements ⟨0x30, value⟩ = .ok [⟨0x04, [0x41]⟩, ⟨0x05, []⟩] := by decide +kernel
  refine ⟨hdefinite, hother.resolve_left (by decide), hread 128 (by decide) [0x30], hwritten _ _ (by decide), helements,
    (hcut _ _).mp helements⟩

end Ldap.Ber
