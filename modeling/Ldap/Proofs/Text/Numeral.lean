import Ldap.Proofs.Ber.Reads
import Ldap.Proofs.Except
import Ldap.Proofs.Text.Ascii
import Ldap.Proofs.Text.Blank
import Ldap.Text.Numeral

/-! Numerals and the numbers they stand for. A number of 64 bits is read from its digits with an optional sign in front
of them and blanks around them, from no other text, and it is what they stand for. The decimal forms of numbers tell
them apart. None of this has letters, so that their case does not matter. -/

namespace Ldap

/-- Bytes that are the UTF-8 form of a text are so of no other one. -/
theorem Ber.eq_utf8Bytes_of_utf8Text? {bytes : List UInt8} {s : String} (h : utf8Text? bytes = some s) :
    bytes = utf8Bytes s := by
  rw [utf8Text?, String.fromUTF8?, Option.dite_none_right_eq_some] at h
  obtain ⟨hvalid, h⟩ := h
  obtain rfl := Option.some.inj h
  simp [utf8Bytes, String.fromUTF8]

namespace Text

open Ber (utf8Bytes)

/-! ### Digits -/

theorem le_ofDigitChars (n : Nat) (cs : List Char) : n ≤ Nat.ofDigitChars 10 cs n := by
  induction cs generalizing n with
  | nil => exact Nat.le_refl n
  | cons c cs ih =>
    rw [Nat.ofDigitChars_cons]
    have := ih (10 * n + (c.toNat - '0'.toNat))
    omega

/-- Digits are read to the number they stand for, unless that is too large. -/
theorem readDigits_eq_ok_iff {maximum n o : Nat} {cs : List Char} (hn : n ≤ maximum) :
    readDigits maximum n cs = .ok o ↔
      (∀ c ∈ cs, c.isDigit) ∧ o = Nat.ofDigitChars 10 cs n ∧ o ≤ maximum := by
  induction cs generalizing n with
  | nil =>
    rw [readDigits, Nat.ofDigitChars_nil, Except.ok.injEq]
    constructor
    · rintro rfl
      exact ⟨by simp, rfl, hn⟩
    · exact fun h => h.2.1.symm
  | cons c cs ih =>
    rw [readDigits, Nat.ofDigitChars_cons, Nat.mul_comm n 10, List.forall_mem_cons]
    split
    · have hle := le_ofDigitChars (10 * n + (c.toNat - '0'.toNat)) cs
      dsimp only
      split
      · refine iff_of_false nofun ?_
        omega
      · rw [ih (by omega), and_assoc]
        simp [*]
    · exact iff_of_false nofun fun h => absurd h.1.1 ‹_›

theorem ne_of_isDigit {c sign : Char} {cs : List Char} (hd : ∀ x ∈ c :: cs, x.isDigit) (hs : sign.isDigit = false) :
    c ≠ sign := by
  rintro rfl
  rw [hd c List.mem_cons_self] at hs
  cases hs

theorem readNat_of_digits {maximum : Nat} {cs : List Char} (hd : ∀ c ∈ cs, c.isDigit) (hne : cs ≠ []) :
    readNat maximum cs = readDigits maximum 0 cs := by
  obtain ⟨c, cs, rfl⟩ := List.exists_cons_of_ne_nil hne
  have hc : c ≠ '+' := ne_of_isDigit hd (by decide)
  rw [readNat] <;> simp_all

theorem toNat_of_isDigit {c : Char} (h : c.isDigit) : 48 ≤ c.toNat ∧ c.toNat ≤ 57 := Char.isDigit_iff_toNat.mp h

theorem isDigit_of_mem_toDigits {n : Nat} : ∀ c ∈ Nat.toDigits 10 n, c.isDigit := fun _ hc =>
  Nat.isDigit_of_mem_toDigits (by decide) (by decide) hc

/-! ### Numerals -/

/-- The number that a text stands for, if it is digits with an optional sign in front of them. -/
inductive Numeral : List Char → Int → Prop
  | plain {digits : List Char} (hd : ∀ c ∈ digits, c.isDigit) (hne : digits ≠ []) :
    Numeral digits (Nat.ofDigitChars 10 digits 0)
  | plus {digits : List Char} (hd : ∀ c ∈ digits, c.isDigit) (hne : digits ≠ []) :
    Numeral ('+' :: digits) (Nat.ofDigitChars 10 digits 0)
  | minus {digits : List Char} (hd : ∀ c ∈ digits, c.isDigit) (hne : digits ≠ []) :
    Numeral ('-' :: digits) (-(Nat.ofDigitChars 10 digits 0 : Int))

/-- The numbers of 64 bits with a sign. -/
def Fits (z : Int) : Prop := -2 ^ 63 ≤ z ∧ z < 2 ^ 63

instance (z : Int) : Decidable (Fits z) := inferInstanceAs (Decidable (_ ∧ _))

theorem fits_toInt (n : Int64) : Fits n.toInt := ⟨n.le_toInt, n.toInt_lt⟩

theorem toInt_ofInt_of_fits {z : Int} (h : Fits z) : (Int64.ofInt z).toInt = z := Int64.toInt_ofInt_of_le h.1 h.2

/-- The number of 64 bits that is left of a number when multiples of 2 to the 64th are taken away or added. -/
def wrap (z : Int) : Int := z.bmod (2 ^ 64)

theorem toInt_add (a b : Int64) : (a + b).toInt = wrap (a.toInt + b.toInt) := Int64.toInt_add a b

theorem wrap_eq_self_iff {z : Int} : wrap z = z ↔ Fits z := by
  have hlow : -(2 ^ 63) ≤ wrap z := Int.le_bmod (m := 2 ^ 64) (by decide)
  have hhigh : wrap z < 2 ^ 63 := Int.bmod_lt (m := 2 ^ 64) (by decide)
  refine ⟨fun h => h ▸ ⟨hlow, hhigh⟩, fun h => Int.bmod_eq_of_le ?_ ?_⟩
  · exact h.1
  · exact h.2

variable {cs : List Char} {n : Int64} {z : Int} {bytes : List UInt8}

/-- No text stands for two numbers. -/
theorem Numeral.unique {z' : Int} (h : Numeral cs z) (h' : Numeral cs z') : z = z' := by
  have hplus : ¬ ('+' : Char).isDigit := by decide
  have hminus : ¬ ('-' : Char).isDigit := by decide
  cases h with
  | plain hd hne =>
    cases h' with
    | plain => rfl
    | plus => exact absurd (hd '+' List.mem_cons_self) hplus
    | minus => exact absurd (hd '-' List.mem_cons_self) hminus
  | plus hd hne =>
    cases h' with
    | plain hdigits => exact absurd (hdigits '+' List.mem_cons_self) hplus
    | plus => rfl
  | minus hd hne =>
    cases h' with
    | plain hdigits => exact absurd (hdigits '-' List.mem_cons_self) hminus
    | minus => rfl

theorem numeral_of_readNat {maximum o : Nat} (h : readNat maximum cs = .ok o) : Numeral cs o ∧ o ≤ maximum := by
  unfold readNat at h
  split at h
  · cases h
  · cases h
  · rename_i digits hne
    obtain ⟨hd, rfl, ho⟩ := (readDigits_eq_ok_iff (Nat.zero_le _)).mp h
    exact ⟨.plus hd (fun he => hne (by rw [he])), ho⟩
  · rename_i hne _ _
    obtain ⟨hd, rfl, ho⟩ := (readDigits_eq_ok_iff (Nat.zero_le _)).mp h
    exact ⟨.plain hd hne, ho⟩

theorem numeral_of_readInt64? (h : readInt64? cs = some n) : Numeral cs n.toInt := by
  unfold readInt64? at h
  split at h
  · cases h
  · rename_i digits hne
    obtain ⟨_, hnegated, rfl⟩ := Option.map_eq_some_iff.mp h
    obtain ⟨o, ho, hz⟩ := Option.bind_eq_some_iff.mp hnegated
    obtain rfl := Option.some.inj hz
    obtain ⟨hd, rfl, hmax⟩ := (readDigits_eq_ok_iff (Nat.zero_le _)).mp (Except.toOption_eq_some_iff.mp ho)
    have hfits : Fits (-(Nat.ofDigitChars 10 digits 0 : Int)) := by
      unfold Fits maxInt64 at *
      omega
    rw [toInt_ofInt_of_fits hfits]
    exact .minus hd fun he => hne (by rw [he])
  · obtain ⟨o, ho, rfl⟩ := Option.map_eq_some_iff.mp h
    obtain ⟨hcs, hmax⟩ := numeral_of_readNat (Except.toOption_eq_some_iff.mp ho)
    rwa [Int64.toInt_ofNat_of_lt (Nat.lt_succ_of_le hmax)]

/-- A numeral is read as the number that it stands for, if that has 64 bits. -/
theorem Numeral.readInt64? (h : Numeral cs z) (hz : Fits z) : readInt64? cs = some (Int64.ofInt z) := by
  have hread : ∀ {maximum : Nat} {digits : List Char}, (∀ c ∈ digits, c.isDigit) →
      Nat.ofDigitChars 10 digits 0 ≤ maximum → readDigits maximum 0 digits = .ok (Nat.ofDigitChars 10 digits 0) :=
    fun hd hle => (readDigits_eq_ok_iff (Nat.zero_le _)).mpr ⟨hd, rfl, hle⟩
  unfold Fits at hz
  cases h with
  | @plain digits hd hne =>
    obtain ⟨c, digits, rfl⟩ := List.exists_cons_of_ne_nil hne
    have hc : c ≠ '-' := ne_of_isDigit hd (by decide)
    have hnat : readNat maxInt64 (c :: digits) = .ok (Nat.ofDigitChars 10 (c :: digits) 0) := by
      rw [readNat_of_digits hd hne, hread hd (by unfold maxInt64; omega)]
    rw [Text.readInt64?, hnat]
    · rfl
    all_goals simp [hc]
  | @plus digits hd hne =>
    have hnat : readNat maxInt64 ('+' :: digits) = .ok (Nat.ofDigitChars 10 digits 0) := by
      rw [readNat, hread hd (by unfold maxInt64; omega)]
      exact hne
    rw [Text.readInt64?, hnat]
    · rfl
    all_goals simp
  | @minus digits hd hne =>
    rw [Text.readInt64?, hread hd (by unfold maxInt64; omega)]
    · rfl
    · exact hne

/-! ### Numbers in bytes -/

/-- Bytes that are a numeral of 64 bits, with blanks around it. -/
def Spells (bytes : List UInt8) (z : Int) : Prop :=
  Fits z ∧ ∃ front numeral back, (∀ c ∈ front, isBlank c) ∧ (∀ c ∈ back, isBlank c) ∧ Numeral numeral z ∧
    bytes = utf8Bytes (String.ofList (front ++ numeral ++ back))

theorem Numeral.isDigit_or_sign (h : Numeral cs z) : cs ≠ [] ∧ ∀ c ∈ cs, c.isDigit ∨ c = '+' ∨ c = '-' := by
  cases h with
  | plain hd hne => exact ⟨hne, fun c hc => .inl (hd c hc)⟩
  | plus hd hne => exact ⟨nofun, List.forall_mem_cons.mpr ⟨.inr (.inl rfl), fun c hc => .inl (hd c hc)⟩⟩
  | minus hd hne => exact ⟨nofun, List.forall_mem_cons.mpr ⟨.inr (.inr rfl), fun c hc => .inl (hd c hc)⟩⟩

theorem Numeral.trimChars (h : Numeral cs z) : trimChars cs = cs := by
  have hblank : ∀ c ∈ cs, ¬ isBlank c := by
    intro c hc
    rcases h.isDigit_or_sign.2 c hc with hd | rfl | rfl
    · obtain ⟨hlow, hhigh⟩ := toNat_of_isDigit hd
      simp only [isBlank, Bool.or_eq_true, Bool.and_eq_true, decide_eq_true_eq, beq_iff_eq]
      omega
    · decide
    · decide
  exact trimChars_eq_self_iff.mpr ⟨fun c hc => hblank c (List.mem_of_head? hc),
    fun c hc => hblank c (List.mem_of_getLast? hc)⟩

theorem Spells.numberOf? (h : Spells bytes z) : numberOf? bytes = some (Int64.ofInt z) := by
  obtain ⟨hz, front, numeral, back, hf, hb, hn, rfl⟩ := h
  rw [Text.numberOf?, Ber.utf8Text?_utf8Bytes, Option.bind_some, String.toList_ofList, trimChars_append hf hb,
    hn.trimChars, hn.readInt64? hz]

theorem numberOf?_eq_some_iff : numberOf? bytes = some n ↔ Spells bytes n.toInt := by
  refine ⟨fun h => ?_, fun h => by rw [h.numberOf?, Int64.ofInt_toInt]⟩
  obtain ⟨s, hs, hn⟩ := Option.bind_eq_some_iff.mp h
  obtain ⟨front, back, hf, hb, htrim⟩ := exists_eq_append_trimChars s.toList
  refine ⟨fits_toInt n, front, _, back, hf, hb, numeral_of_readInt64? hn, ?_⟩
  rw [← htrim, String.ofList_toList]
  exact Ber.eq_utf8Bytes_of_utf8Text? hs

/-! ### Decimal forms -/

/-- The decimal form of a number. -/
def decimal (z : Int) : List UInt8 := utf8Bytes (toString z)

theorem numeral_toString (z : Int) : Numeral (toString z).toList z := by
  have hnat : ∀ n : Nat, Numeral (Nat.toDigits 10 n) n := by
    intro n
    have hplain : Numeral (Nat.toDigits 10 n) _ := .plain isDigit_of_mem_toDigits Nat.toDigits_ne_nil
    rwa [Nat.ofDigitChars_ten_toDigits] at hplain
  rw [Int.toString_eq_repr, Int.repr_eq_if]
  split
  · rename_i hz
    rw [Nat.repr_eq_ofList_toDigits, String.toList_ofList]
    have := hnat z.toNat
    rwa [Int.toNat_of_nonneg hz] at this
  · rename_i hz
    have hminus : Numeral ('-' :: Nat.toDigits 10 (-z).toNat) _ := .minus isDigit_of_mem_toDigits Nat.toDigits_ne_nil
    rw [Nat.ofDigitChars_ten_toDigits, Int.toNat_of_nonneg (by omega), neg_neg] at hminus
    simpa [Nat.repr_eq_ofList_toDigits] using hminus

theorem decimal_inj {z' : Int} : decimal z = decimal z' ↔ z = z' := by
  refine ⟨fun h => ?_, congrArg decimal⟩
  have htext : some (toString z) = some (toString z') := by
    rw [← Ber.utf8Text?_utf8Bytes, ← Ber.utf8Text?_utf8Bytes]
    exact congrArg Ber.utf8Text? h
  have hnumeral := numeral_toString z
  rw [Option.some.inj htext] at hnumeral
  exact hnumeral.unique (numeral_toString z')

/-! ### No letters -/

theorem not_isAlpha_of_isBlank {c : Char} (h : isBlank c) : ¬ c.isAlpha := by
  simp only [isBlank, Bool.or_eq_true, Bool.and_eq_true, decide_eq_true_eq, beq_iff_eq] at h
  rw [isAlpha_iff_toNat]
  omega

theorem Numeral.not_isAlpha (h : Numeral cs z) : ∀ c ∈ cs, ¬ c.isAlpha := by
  intro c hc
  rcases h.isDigit_or_sign.2 c hc with hd | rfl | rfl
  · have := toNat_of_isDigit hd
    rw [isAlpha_iff_toNat]
    omega
  · decide
  · decide

theorem Spells.caseless (h : Spells bytes z) : ∀ b ∈ bytes, Caseless b := by
  obtain ⟨-, front, numeral, back, hf, hb, hn, rfl⟩ := h
  refine caseless_of_mem_utf8Bytes fun c hc => ?_
  rcases List.mem_append.mp hc with hc | hc
  · rcases List.mem_append.mp hc with hc | hc
    · exact not_isAlpha_of_isBlank (hf c hc)
    · exact hn.not_isAlpha c hc
  · exact not_isAlpha_of_isBlank (hb c hc)

/-- There are no letters in decimal forms. -/
theorem lowerBytes_decimal (z : Int) : lowerBytes (decimal z) = decimal z := by
  have hcaseless : ∀ b ∈ decimal z, Caseless b := by
    rw [decimal, ← String.ofList_toList (s := toString z)]
    exact caseless_of_mem_utf8Bytes (numeral_toString z).not_isAlpha
  exact lowerBytes_eq_self hcaseless

/-- Bytes that spell a number are alone in what they are folded to. -/
theorem Spells.eq_of_lowerBytes (h : Spells bytes z) {other : List UInt8} (ho : lowerBytes other = lowerBytes bytes) :
    other = bytes := eq_of_lowerBytes_eq h.caseless ho

/-- Whether bytes spell a number does not depend on the case of letters. -/
theorem numberOf?_congr {other : List UInt8} (h : lowerBytes bytes = lowerBytes other) :
    numberOf? bytes = numberOf? other := by
  ext n
  rw [numberOf?_eq_some_iff, numberOf?_eq_some_iff]
  constructor
  · intro hn
    rwa [hn.eq_of_lowerBytes h.symm]
  · intro hn
    rwa [hn.eq_of_lowerBytes h]

end Text

end Ldap
