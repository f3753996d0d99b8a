import Ldap.Proofs.Ber.Length
import Ldap.Proofs.Except
import Mathlib.Data.List.Forall2

/-! Elements in memory. Bytes are an element if they are a tag, a header, and as many bytes of a value as the header
declares. An element that was written is such bytes, and so is each of the pieces that a value is cut into. -/

namespace Ldap.Ber

open Length (Declares)

/-- The bytes are a single element, all of them. -/
def IsElement (bytes : List UInt8) : Prop := ∃ e, Element.decode bytes = .ok e

namespace Element

variable {e : Element} {bytes front rest header inner : List UInt8} {n : Nat}

theorem length_encode (e : Element) :
    e.encode.length = 1 + (Length.encode e.value.length).length + e.value.length := by
  simp only [encode, List.length_cons, List.length_append]
  omega

theorem decodePrefix_eq_ok_iff : decodePrefix bytes = .ok (e, n) ↔ ∃ header rest, Declares header e.value.length ∧
    bytes = e.tag :: (header ++ (e.value ++ rest)) ∧ n = 1 + header.length + e.value.length := by
  constructor
  · intro h
    cases bytes with
    | nil => cases h
    | cons tag bytes =>
      obtain ⟨⟨length, size⟩, hd, h⟩ := Except.bind_eq_ok_iff.mp h
      obtain ⟨header, rest, hdeclares, rfl, rfl⟩ := Length.declares_of_decode hd
      dsimp only at h
      rw [List.drop_left' rfl] at h
      split at h
      · cases h
      · rename_i hlen
        have hvalue : (rest.take length).length = length :=
          Nat.le_antisymm (List.length_take_le _ _) (Nat.not_lt.mp hlen)
        cases h
        exact ⟨header, rest.drop length, by rwa [hvalue], by rw [List.take_append_drop], by rw [hvalue]⟩
  · rintro ⟨header, rest, hd, rfl, rfl⟩
    rw [decodePrefix, hd.decode_append, Except.ok_bind]
    dsimp only
    rw [List.drop_left' rfl, List.take_left' rfl, if_neg (Nat.lt_irrefl _)]

theorem decode_eq_ok_iff :
    decode bytes = .ok e ↔ ∃ header, Declares header e.value.length ∧ bytes = e.tag :: (header ++ e.value) := by
  constructor
  · intro h
    obtain ⟨⟨e', n⟩, hd, h⟩ := Except.bind_eq_ok_iff.mp h
    obtain ⟨header, rest, hdeclares, rfl, rfl⟩ := decodePrefix_eq_ok_iff.mp hd
    dsimp only at h
    split at h
    · rename_i hlen
      cases h
      simp only [List.length_cons, List.length_append] at hlen
      obtain rfl : rest = [] := List.length_eq_zero_iff.mp (by omega)
      exact ⟨header, hdeclares, by rw [List.append_nil]⟩
    · cases h
  · rintro ⟨header, hd, rfl⟩
    have hprefix : decodePrefix (e.tag :: (header ++ e.value)) = .ok (e, 1 + header.length + e.value.length) :=
      decodePrefix_eq_ok_iff.mpr ⟨header, [], hd, by rw [List.append_nil], rfl⟩
    rw [decode, hprefix, Except.ok_bind]
    exact if_pos (by simp only [List.length_cons, List.length_append]; omega)

/-- Bytes at the front are an element just if they are one on their own. -/
theorem decodePrefix_append_iff : decodePrefix (front ++ rest) = .ok (e, front.length) ↔ decode front = .ok e := by
  rw [decodePrefix_eq_ok_iff, decode_eq_ok_iff]
  constructor
  · rintro ⟨header, rest', hd, hbytes, hlen⟩
    have heq : front ++ rest = (e.tag :: (header ++ e.value)) ++ rest' := by rw [hbytes]; simp
    refine ⟨header, hd, (List.append_inj heq ?_).1⟩
    rw [hlen, List.length_cons, List.length_append]
    omega
  · rintro ⟨header, hd, rfl⟩
    refine ⟨header, rest, hd, by simp, ?_⟩
    rw [List.length_cons, List.length_append]
    omega

theorem decode_encode (h : e.value.length ≤ maxLength) : decode e.encode = .ok e :=
  decode_eq_ok_iff.mpr ⟨_, Length.declares_encode h, rfl⟩

theorem encode_inj {e' : Element} (h : e.encode = e'.encode) (hl : e.encode.length ≤ maxLength) : e = e' := by
  have hd : decode e.encode = .ok e := decode_encode (by rw [length_encode] at hl; omega)
  have hd' : decode e'.encode = .ok e' := decode_encode (by rw [h, length_encode] at hl; omega)
  rw [h] at hd
  exact Except.ok.inj (hd.symm.trans hd')

/-- The pieces that bytes are cut into hold all of them. -/
theorem decodeMany_eq_ok {count : Nat} {elements : List Element} (h : decodeMany count bytes = .ok elements)
    (hl : bytes.length ≤ count) : ∃ pieces : List (List UInt8), bytes = pieces.flatten ∧
      List.Forall₂ (fun piece e => decode piece = .ok e) pieces elements := by
  induction count generalizing bytes elements with
  | zero =>
    obtain rfl : bytes = [] := List.length_eq_zero_iff.mp (Nat.le_zero.mp hl)
    cases h
    exact ⟨[], rfl, .nil⟩
  | succ count ih =>
    cases bytes with
    | nil =>
      cases h
      exact ⟨[], rfl, .nil⟩
    | cons b bytes =>
      obtain ⟨⟨e, n⟩, hfirst, h⟩ := Except.bind_eq_ok_iff.mp h
      obtain ⟨rest, hrest, h⟩ := Except.bind_eq_ok_iff.mp h
      cases h
      obtain ⟨header, tail, hd, hbytes, rfl⟩ := decodePrefix_eq_ok_iff.mp hfirst
      have hcut : b :: bytes = (e.tag :: (header ++ e.value)) ++ tail := by rw [hbytes]; simp
      have hlen : (e.tag :: (header ++ e.value)).length = 1 + header.length + e.value.length := by
        rw [List.length_cons, List.length_append]
        omega
      rw [hcut, List.drop_left' hlen] at hrest
      rw [hcut, List.length_append, hlen] at hl
      obtain ⟨pieces, rfl, hpieces⟩ := ih hrest (by omega)
      exact ⟨_ :: pieces, hcut, .cons (decode_eq_ok_iff.mpr ⟨header, hd, rfl⟩) hpieces⟩

end Element

namespace IsElement

variable {bytes header inner : List UInt8} {tag : UInt8} {n : Nat}

theorem ne_nil (h : IsElement bytes) : bytes ≠ [] := by
  obtain ⟨e, he⟩ := h
  obtain ⟨header, -, rfl⟩ := Element.decode_eq_ok_iff.mp he
  exact List.cons_ne_nil _ _

/-- There is a tag, and a byte or more of a length. -/
theorem two_le_length (h : IsElement bytes) : 2 ≤ bytes.length := by
  obtain ⟨e, he⟩ := h
  obtain ⟨header, hd, rfl⟩ := Element.decode_eq_ok_iff.mp he
  have hpos := hd.length_pos
  simp only [List.length_cons, List.length_append]
  omega

/-- What a header stands in front of is an element if it has the length that the header declares, and no other. -/
theorem iff_of_declares (hd : Length.Declares header n) : IsElement (tag :: (header ++ inner)) ↔ n = inner.length := by
  constructor
  · rintro ⟨e, he⟩
    obtain ⟨header', hd', hbytes⟩ := Element.decode_eq_ok_iff.mp he
    obtain ⟨-, hrest⟩ := List.cons.inj hbytes
    have h := hd.decode_append inner
    rw [hrest, hd'.decode_append] at h
    obtain ⟨hvalue, hheader⟩ := Prod.mk.inj (Except.ok.inj h)
    rw [← hvalue, (List.append_inj hrest hheader.symm).2]
  · rintro rfl
    exact ⟨⟨tag, inner⟩, Element.decode_eq_ok_iff.mpr ⟨header, hd, rfl⟩⟩

/-- An element with bytes behind it is no longer one. -/
theorem append_iff {front rest : List UInt8} (h : IsElement front) : IsElement (front ++ rest) ↔ rest = [] := by
  constructor
  · rintro ⟨e', he'⟩
    obtain ⟨e, he⟩ := h
    have hfront : Element.decodePrefix (front ++ rest) = .ok (e, front.length) := Element.decodePrefix_append_iff.mpr he
    have hall : Element.decodePrefix (front ++ rest ++ []) = .ok (e', (front ++ rest).length) :=
      Element.decodePrefix_append_iff.mpr he'
    rw [List.append_nil, hfront, List.length_append] at hall
    obtain ⟨-, hlen⟩ := Prod.mk.inj (Except.ok.inj hall)
    exact List.length_eq_zero_iff.mp (by omega)
  · rintro rfl
    rwa [List.append_nil]

end IsElement

end Ldap.Ber
