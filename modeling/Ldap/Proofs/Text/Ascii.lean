import Ldap.Ber.Element
import Ldap.Text.Ascii
import Mathlib.Data.List.Forall2

/-! Texts and bytes in which letters of ASCII have changed their case. Folding takes them to the same, and it takes
nothing else to bytes that have no letters. -/

namespace Ldap.Text

open Ber (utf8Bytes)

variable {b c : UInt8} {v w : List UInt8} {s t : String}

/-! ### Letters in either case -/

/-- The letter in the other case, or the byte itself if it is no letter of ASCII. -/
def otherCase (b : UInt8) : UInt8 :=
  if 0x41 ≤ b ∧ b ≤ 0x5A then b + 0x20 else if 0x61 ≤ b ∧ b ≤ 0x7A then b - 0x20 else b

/-- Bytes in which any letters are put in the other case. -/
def RecasedBytes : List UInt8 → List UInt8 → Prop := List.Forall₂ fun b c => c = b ∨ c = otherCase b

/-- Texts in which any letters of ASCII are put in the other case. -/
def RecasedText (s t : String) : Prop :=
  List.Forall₂ (fun c d => d = c ∨ d = c.toLower ∨ d = c.toUpper) s.toList t.toList

instance (v w : List UInt8) : Decidable (RecasedBytes v w) := inferInstanceAs (Decidable (List.Forall₂ _ v w))

instance (s t : String) : Decidable (RecasedText s t) := inferInstanceAs (Decidable (List.Forall₂ _ s.toList t.toList))

/-- What holds of the bytes of all numbers below 256 holds of all bytes. -/
theorem forall_byte {p : UInt8 → Prop} (h : ∀ n < 256, p (UInt8.ofNat n)) (b : UInt8) : p b := by
  simpa using h b.toNat b.toNat_lt

theorem otherCase_otherCase : ∀ b, otherCase (otherCase b) = b := forall_byte (by decide +kernel)

theorem lowerByte_otherCase : ∀ b, lowerByte (otherCase b) = lowerByte b := forall_byte (by decide +kernel)

theorem lowerByte_eq_or (b : UInt8) : lowerByte b = b ∨ lowerByte b = otherCase b := by
  unfold lowerByte otherCase
  split
  · exact .inr rfl
  · exact .inl rfl

theorem between_iff {low c high : Char} :
    (low.val ≤ c.val ∧ c.val ≤ high.val) ↔ (low.toNat ≤ c.toNat ∧ c.toNat ≤ high.toNat) := by
  rw [UInt32.le_iff_toNat_le, UInt32.le_iff_toNat_le]
  rfl

theorem toNat_toLower (c : Char) :
    c.toLower.toNat = if 65 ≤ c.toNat ∧ c.toNat ≤ 90 then c.toNat + 32 else c.toNat := by
  have hletter : ('A'.val ≤ c.val ∧ c.val ≤ 'Z'.val) ↔ (65 ≤ c.toNat ∧ c.toNat ≤ 90) := between_iff
  have hshift : ('a'.val - 'A'.val).toNat = 32 := by decide
  unfold Char.toLower
  split
  · rename_i h
    have hbound := (hletter.mp h).2
    rw [if_pos (hletter.mp h), ← Char.toNat_val, UInt32.toNat_add, hshift, Char.toNat_val]
    omega
  · rw [if_neg (mt hletter.mpr ‹_›)]

theorem toNat_toUpper (c : Char) :
    c.toUpper.toNat = if 97 ≤ c.toNat ∧ c.toNat ≤ 122 then c.toNat - 32 else c.toNat := by
  have hletter : ('a'.val ≤ c.val ∧ c.val ≤ 'z'.val) ↔ (97 ≤ c.toNat ∧ c.toNat ≤ 122) := between_iff
  -- the difference is negative and wraps around
  have hshift : ('A'.val - 'a'.val).toNat = 2 ^ 32 - 32 := by decide
  unfold Char.toUpper
  split
  · rename_i h
    have hbounds := hletter.mp h
    rw [if_pos hbounds, ← Char.toNat_val, UInt32.toNat_add, hshift, Char.toNat_val]
    omega
  · rw [if_neg (mt hletter.mpr ‹_›)]

theorem toLower_toLower (c : Char) : c.toLower.toLower = c.toLower := by
  rw [← Char.toNat_inj, toNat_toLower, toNat_toLower]
  grind

theorem toLower_toUpper (c : Char) : c.toUpper.toLower = c.toLower := by
  rw [← Char.toNat_inj, toNat_toLower, toNat_toLower, toNat_toUpper]
  grind

theorem RecasedBytes.lowerBytes_eq (h : RecasedBytes v w) : lowerBytes v = lowerBytes w := by
  induction h with
  | nil => rfl
  | cons hb _ ih =>
    refine congrArg₂ List.cons ?_ ih
    rcases hb with rfl | rfl
    · rfl
    · exact (lowerByte_otherCase _).symm

theorem RecasedText.sameText (h : RecasedText s t) : sameText s t := by
  have hfold : ∀ {cs ds : List Char}, List.Forall₂ (fun c d => d = c ∨ d = c.toLower ∨ d = c.toUpper) cs ds →
      cs.map Char.toLower = ds.map Char.toLower := by
    intro cs ds h
    induction h with
    | nil => rfl
    | cons hc _ ih =>
      refine congrArg₂ List.cons ?_ ih
      rcases hc with rfl | rfl | rfl
      · rfl
      · exact (toLower_toLower _).symm
      · exact (toLower_toUpper _).symm
  simp [Text.sameText, lowerAscii, hfold h]

/-! ### Bytes without letters -/

/-- The byte is no letter of ASCII. -/
def Caseless (b : UInt8) : Prop := otherCase b = b

theorem caseless_of_toNat (hupper : ¬ (65 ≤ b.toNat ∧ b.toNat ≤ 90)) (hlower : ¬ (97 ≤ b.toNat ∧ b.toNat ≤ 122)) :
    Caseless b := by
  rw [Caseless, otherCase, if_neg, if_neg]
  · exact fun h => hlower ⟨UInt8.le_iff_toNat_le.mp h.1, UInt8.le_iff_toNat_le.mp h.2⟩
  · exact fun h => hupper ⟨UInt8.le_iff_toNat_le.mp h.1, UInt8.le_iff_toNat_le.mp h.2⟩

theorem isAlpha_iff_toNat {c : Char} :
    c.isAlpha ↔ (65 ≤ c.toNat ∧ c.toNat ≤ 90) ∨ (97 ≤ c.toNat ∧ c.toNat ≤ 122) := by
  change (decide ('A'.val ≤ c.val ∧ c.val ≤ 'Z'.val) || (decide ('a'.val ≤ c.val) && decide (c.val ≤ 'z'.val))) ↔ _
  rw [Bool.or_eq_true, Bool.and_eq_true, decide_eq_true_iff, decide_eq_true_iff, decide_eq_true_iff, between_iff,
    between_iff]
  rfl

/-- A character of ASCII is its own byte, and any other one has bytes from 128 on only. -/
theorem toNat_of_mem_utf8EncodeChar {c : Char} (hb : b ∈ String.utf8EncodeChar c) :
    b.toNat = c.toNat ∨ 128 ≤ b.toNat := by
  have hbyte : ∀ n < 256, (UInt8.ofNat n).toNat = n := fun n hn => UInt8.toNat_ofNat_of_lt' hn
  have hval : c.val.toNat = c.toNat := rfl
  unfold String.utf8EncodeChar at hb
  simp only [hval] at hb
  split at hb
  · obtain rfl := List.mem_singleton.mp hb
    exact .inl (hbyte _ (by omega))
  -- the first byte of a longer form has its length in front, and the others a mark
  · refine .inr ?_
    split at hb
    · simp only [List.mem_cons, List.not_mem_nil, or_false] at hb
      rcases hb with rfl | rfl <;> rw [hbyte _ (by omega)] <;> omega
    · split at hb
      · simp only [List.mem_cons, List.not_mem_nil, or_false] at hb
        rcases hb with rfl | rfl | rfl <;> rw [hbyte _ (by omega)] <;> omega
      · simp only [List.mem_cons, List.not_mem_nil, or_false] at hb
        rcases hb with rfl | rfl | rfl | rfl <;> rw [hbyte _ (by omega)] <;> omega

theorem mem_utf8Bytes_iff {s : String} : b ∈ utf8Bytes s ↔ ∃ c ∈ s.toList, b ∈ String.utf8EncodeChar c := by
  have hbytes : ∀ cs : List Char, utf8Bytes (String.ofList cs) = cs.flatMap String.utf8EncodeChar := fun cs => by
    simp [utf8Bytes, List.utf8Encode]
  have hs : utf8Bytes s = s.toList.flatMap String.utf8EncodeChar := by rw [← hbytes, String.ofList_toList]
  rw [hs, List.mem_flatMap]

/-- A text without null characters has no null byte. -/
theorem zero_not_mem_utf8Bytes {s : String} (h : '\x00' ∉ s.toList) : 0 ∉ utf8Bytes s := by
  rw [mem_utf8Bytes_iff]
  rintro ⟨c, hc, hb⟩
  rcases toNat_of_mem_utf8EncodeChar hb with hzero | hhigh
  · obtain rfl : c = '\x00' := Char.toNat_inj.mp hzero.symm
    exact h hc
  · exact absurd hhigh (by decide)

theorem caseless_of_mem_utf8Bytes {cs : List Char} (h : ∀ c ∈ cs, ¬ c.isAlpha) :
    ∀ b ∈ utf8Bytes (String.ofList cs), Caseless b := by
  intro b hb
  obtain ⟨c, hc, hb⟩ := mem_utf8Bytes_iff.mp hb
  rw [String.toList_ofList] at hc
  have hletter := not_or.mp (mt isAlpha_iff_toNat.mpr (h c hc))
  rcases toNat_of_mem_utf8EncodeChar hb with heq | hhigh
  · exact caseless_of_toNat (heq ▸ hletter.1) (heq ▸ hletter.2)
  · exact caseless_of_toNat (by omega) (by omega)

theorem Caseless.lowerByte_eq (hb : Caseless b) : lowerByte b = b := by
  rcases lowerByte_eq_or b with h | h
  · exact h
  · exact h.trans hb

theorem lowerBytes_eq_self (hv : ∀ b ∈ v, Caseless b) : lowerBytes v = v := by
  rw [lowerBytes, List.map_congr_left fun b hb => (hv b hb).lowerByte_eq, List.map_id']

theorem eq_of_lowerByte_eq (hb : Caseless b) (h : lowerByte c = lowerByte b) : c = b := by
  rw [hb.lowerByte_eq] at h
  rcases lowerByte_eq_or c with hc | hc
  · exact hc.symm.trans h
  · rw [← otherCase_otherCase c, ← hc, h, hb]

/-- Bytes without letters are alone in what they are folded to. -/
theorem eq_of_lowerBytes_eq (hv : ∀ b ∈ v, Caseless b) (h : lowerBytes w = lowerBytes v) : w = v := by
  induction v generalizing w with
  | nil => exact List.map_eq_nil_iff.mp h
  | cons b v ih =>
    obtain ⟨c, w, rfl, hc, hw⟩ := List.map_eq_cons_iff.mp h
    rw [List.forall_mem_cons] at hv
    rw [eq_of_lowerByte_eq hv.1 hc, ih hv.2 hw]

end Ldap.Text
