import Ldap.Ber.Integer
import Ldap.Proofs.Ber.Length

/-! Integers read back. The bytes that are written stand for the value, and no shorter bytes do: a
32-bit value takes at most four of them, a 64-bit value at most eight. -/

namespace Ldap.Ber.Integer

/-- A leading byte that only repeats the sign bit of the byte after it. -/
def Redundant (a b : UInt8) : Prop := (a = 0x00 ∧ b < 0x80) ∨ (a = 0xFF ∧ 0x80 ≤ b)

theorem decode_cons (b : UInt8) (rest : List UInt8) :
    decode (b :: rest) = ofBigEndian (b :: rest) - if 0x80 ≤ b then 256 ^ (rest.length + 1) else 0 := by
  have hfold : ∀ (bytes : List UInt8) (s : Int),
      bytes.foldl (fun (n : Int) b => n * 256 + b.toNat) s = s * 256 ^ bytes.length + ofBigEndian bytes := by
    intro bytes
    induction bytes with
    | nil => simp [ofBigEndian]
    | cons c bytes ih =>
      intro s
      rw [List.foldl_cons, ih, ofBigEndian_cons, List.length_cons, pow_succ']
      push_cast
      ring
  rw [decode, hfold]
  simp only [List.head?_cons, Option.any_some, decide_eq_true_eq, List.length_cons]
  split_ifs <;> ring

/-- The sign bit is set from the middle of the range of unsigned values on. -/
theorem sign_iff (b : UInt8) (rest : List UInt8) :
    0x80 ≤ b ↔ 128 * 256 ^ rest.length ≤ ofBigEndian (b :: rest) := by
  have hr := ofBigEndian_lt rest
  rw [ofBigEndian_cons, UInt8.le_iff_toNat_le]
  change 128 ≤ b.toNat ↔ _
  constructor
  · intro hb
    nlinarith
  · intro hv
    by_contra hb
    have : b.toNat ≤ 127 := by omega
    nlinarith

theorem decode_trim (bytes : List UInt8) : decode (trim bytes) = decode bytes := by
  fun_induction trim bytes with
  | case1 a b rest h ih =>
    rw [ih, decode_cons, decode_cons, ofBigEndian_cons a, List.length_cons]
    obtain ⟨rfl, hb⟩ | ⟨rfl, hb⟩ := h
    · rw [if_neg (UInt8.not_le.mpr hb), if_neg (by decide)]
      simp
    · rw [if_pos hb, if_pos (by decide)]
      push_cast
      ring
  | case2 => rfl
  | case3 => rfl

theorem length_trim_le (bytes : List UInt8) : (trim bytes).length ≤ bytes.length := by
  fun_induction trim bytes with
  | case1 a b rest h ih => exact ih.trans (Nat.le_succ _)
  | case2 => exact le_rfl
  | case3 => exact le_rfl

theorem trim_ne_nil {bytes : List UInt8} (h : bytes ≠ []) : trim bytes ≠ [] := by
  fun_induction trim bytes with
  | case1 a b rest _ ih => exact ih (by simp)
  | case2 => simp
  | case3 bytes => exact h

theorem not_redundant_of_trim {bytes rest : List UInt8} {a b : UInt8}
    (h : trim bytes = a :: b :: rest) : ¬ Redundant a b := by
  fun_induction trim bytes with
  | case1 _ _ _ _ ih => exact ih h
  | case2 _ _ _ hr =>
    obtain ⟨rfl, rfl, -⟩ : _ ∧ _ ∧ _ := by simpa using h
    exact hr
  | case3 bytes hne => exact absurd h (hne a b rest)

/-- The first of the bits is the sign, so the others bound the value. -/
theorem decode_range {bytes : List UInt8} {k : Nat} (h : bytes.length ≤ k + 1) :
    -(128 * 256 ^ k) ≤ decode bytes ∧ decode bytes < 128 * 256 ^ k := by
  cases bytes with
  | nil =>
    have hk : (0 : Int) < 128 * 256 ^ k := by positivity
    exact ⟨neg_nonpos.mpr hk.le, hk⟩
  | cons b rest =>
    have hsign := sign_iff b rest
    have hlt : (ofBigEndian (b :: rest) : Int) < 256 * 256 ^ rest.length := by
      rw [← pow_succ']
      exact_mod_cast ofBigEndian_lt (b :: rest)
    have hk : (256 : Int) ^ rest.length ≤ 256 ^ k := pow_le_pow_right₀ (by norm_num) (Nat.le_of_succ_le_succ h)
    rw [decode_cons, pow_succ']
    by_cases hs : 0x80 ≤ b
    · have hhalf : (128 * 256 ^ rest.length : Int) ≤ ofBigEndian (b :: rest) := by exact_mod_cast hsign.mp hs
      rw [if_pos hs]
      constructor <;> linarith
    · have hhalf : (ofBigEndian (b :: rest) : Int) < 128 * 256 ^ rest.length := by
        exact_mod_cast Nat.not_le.mp (mt hsign.mpr hs)
      rw [if_neg hs]
      constructor <;> linarith

/-- A value is that of one string of bytes of each length, if any. -/
theorem decode_inj {xs ys : List UInt8} (hl : xs.length = ys.length) (h : decode xs = decode ys) : xs = ys := by
  cases xs with
  | nil => exact (List.length_eq_zero_iff.mp hl.symm).symm
  | cons x xs =>
    cases ys with
    | nil => cases hl
    | cons y ys =>
      have hx : (ofBigEndian (x :: xs) : Int) < 256 ^ (xs.length + 1) := by exact_mod_cast ofBigEndian_lt (x :: xs)
      have hy : (ofBigEndian (y :: ys) : Int) < 256 ^ (xs.length + 1) := by
        rw [Nat.succ.inj hl]
        exact_mod_cast ofBigEndian_lt (y :: ys)
      rw [decode_cons, decode_cons, ← Nat.succ.inj hl] at h
      refine ofBigEndian_inj hl ?_
      -- the values differ by no more than the numbers do, and these not by a whole power
      generalize (256 : Int) ^ (xs.length + 1) = size at hx hy h
      split_ifs at h <;> omega

/-- Without a redundant byte in front, one byte less could not hold the value. -/
theorem decode_outside {a b : UInt8} (rest : List UInt8) (h : ¬ Redundant a b) :
    decode (a :: b :: rest) < -(128 * 256 ^ rest.length) ∨
      128 * 256 ^ rest.length ≤ decode (a :: b :: rest) := by
  have hr : (ofBigEndian rest : Int) < 256 ^ rest.length := by exact_mod_cast ofBigEndian_lt rest
  have ha : (a.toNat : Int) < 256 := by exact_mod_cast a.toNat_lt
  have hb : (b.toNat : Int) < 256 := by exact_mod_cast b.toNat_lt
  have hpos : (0 : Int) < 256 ^ rest.length := by positivity
  rw [decode_cons, ofBigEndian_cons, ofBigEndian_cons, List.length_cons, pow_succ', pow_succ', pow_succ']
  push_cast
  by_cases hs : 0x80 ≤ a
  · rw [if_pos hs]
    left
    by_cases hf : a = 0xFF
    · have hb' : ¬ 0x80 ≤ b := fun hb => h (.inr ⟨hf, hb⟩)
      rw [UInt8.not_le, UInt8.lt_iff_toNat_lt] at hb'
      have h127 : (b.toNat : Int) ≤ 127 := by exact_mod_cast Nat.lt_succ_iff.mp hb'
      rw [show (a.toNat : Int) = 255 by rw [hf]; rfl]
      nlinarith
    · have h254 : (a.toNat : Int) ≤ 254 := by
        have : a.toNat ≠ 255 := fun he => hf (UInt8.toNat_inj.mp he)
        omega
      nlinarith
  · rw [if_neg hs]
    right
    by_cases hz : a = 0x00
    · have hb' : 0x80 ≤ b := by
        by_contra hb
        exact h (.inl ⟨hz, UInt8.not_le.mp hb⟩)
      rw [UInt8.le_iff_toNat_le] at hb'
      have h128 : (128 : Int) ≤ b.toNat := by exact_mod_cast hb'
      rw [show (a.toNat : Int) = 0 by rw [hz]; rfl]
      nlinarith
    · have h1 : (1 : Int) ≤ a.toNat := by
        have : a.toNat ≠ 0 := fun he => hz (UInt8.toNat_inj.mp he)
        omega
      have hb0 : (0 : Int) ≤ b.toNat := by positivity
      nlinarith

/-! ### Encodings -/

theorem decode_encode (v : Int64) : decode (encode v) = v.toInt := by
  have hn : v.toUInt64.toNat < 256 ^ 8 := v.toUInt64.toNat_lt
  have hv : ofBigEndian (bigEndian 8 v.toUInt64.toNat) = v.toUInt64.toNat := by
    rw [ofBigEndian_bigEndian, Nat.mod_eq_of_lt hn]
  rw [encode, decode_trim]
  have hl := length_bigEndian 8 v.toUInt64.toNat
  cases hb : bigEndian 8 v.toUInt64.toNat with
  | nil => simp [hb] at hl
  | cons b rest =>
    rw [hb] at hl hv
    have hrest : rest.length = 7 := by simpa using hl
    have hs := sign_iff b rest
    rw [hrest, hv] at hs
    have hi : v.toInt = if 2 * v.toUInt64.toNat < 2 ^ 64 then (v.toUInt64.toNat : Int)
        else (v.toUInt64.toNat : Int) - (2 ^ 64 : Nat) := BitVec.toInt_eq_toNat_cond v.toBitVec
    rw [decode_cons, hv, hrest, hi]
    by_cases hc : 0x80 ≤ b
    · rw [if_pos hc, if_neg (by have := hs.mp hc; omega)]
      norm_num
    · rw [if_neg hc, if_pos (by have := mt hs.mpr hc; omega)]
      norm_num

theorem length_encode_pos (v : Int64) : 1 ≤ (encode v).length :=
  List.length_pos_iff.mpr (trim_ne_nil (List.ne_nil_of_length_pos (by simp)))

theorem length_encode_le (v : Int64) : (encode v).length ≤ 8 :=
  (length_trim_le _).trans (by simp)

/-- A value within the range of so many bytes takes no more of them. -/
theorem length_encode_le_of_range {v : Int64} {k : Nat} (hlo : -(128 * 256 ^ k) ≤ v.toInt)
    (hhi : v.toInt < 128 * 256 ^ k) : (encode v).length ≤ k + 1 := by
  have hd := decode_encode v
  have ht : encode v = trim _ := rfl
  match he : encode v with
  | [] => simp
  | [_] => simp
  | a :: b :: rest =>
    rw [he] at hd ht
    have ho := decode_outside rest (not_redundant_of_trim ht.symm)
    rw [hd] at ho
    by_contra hlen
    have hk : (256 : Int) ^ k ≤ 256 ^ rest.length :=
      pow_le_pow_right₀ (by norm_num) (by simp only [List.length_cons] at hlen; omega)
    omega

theorem length_encode_int32_le (n : Int32) : (encode n.toInt64).length ≤ 4 := by
  have hlo := n.le_toInt
  have hhi := n.toInt_lt
  apply length_encode_le_of_range (k := 3) <;> rw [Int32.toInt_toInt64] <;> norm_num <;> omega

/-- No bytes stand for a value in a shorter way than those that are written, and none of the same length do. -/
theorem eq_encode_or_lt {v : Int64} {bytes : List UInt8} (hne : bytes ≠ []) (h : decode bytes = v.toInt) :
    bytes = encode v ∨ (encode v).length < bytes.length := by
  have hlen : bytes.length ≤ bytes.length - 1 + 1 := Nat.le_add_of_sub_le (Nat.le_refl _)
  obtain ⟨hlo, hhi⟩ := decode_range hlen
  rw [h] at hlo hhi
  have hle := length_encode_le_of_range hlo hhi
  rw [Nat.sub_add_cancel (List.length_pos_iff.mpr hne)] at hle
  rcases Nat.lt_or_eq_of_le hle with hlt | heq
  · exact .inr hlt
  · exact .inl (decode_inj heq.symm (h.trans (decode_encode v).symm))

end Ldap.Ber.Integer
