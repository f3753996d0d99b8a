import Ldap.Ber.Element
import Mathlib.Data.List.Induction
import Mathlib.Tactic.Linarith
import Mathlib.Tactic.Ring

/-! Length headers read back. The header of a length has one byte up to 127 and at most five up to
the largest length that is accepted; a reader of a slice finds the length and the end of the header
whatever bytes follow, and it accepts longer headers for the same length too. -/

namespace Ldap.Ber

/-! ### Numbers as bytes -/

@[simp] theorem length_bigEndian (count n : Nat) : (bigEndian count n).length = count := by
  induction count generalizing n with
  | zero => rfl
  | succ count ih => simp [bigEndian, ih]

theorem ofBigEndian_concat (bytes : List UInt8) (b : UInt8) :
    ofBigEndian (bytes ++ [b]) = ofBigEndian bytes * 256 + b.toNat := by
  simp [ofBigEndian]

theorem ofBigEndian_bigEndian (count n : Nat) : ofBigEndian (bigEndian count n) = n % 256 ^ count := by
  induction count generalizing n with
  | zero => simp [bigEndian, ofBigEndian, Nat.mod_one]
  | succ count ih =>
    have hm : n % (256 * 256 ^ count) = n % 256 + 256 * (n / 256 % 256 ^ count) := Nat.mod_mul
    rw [bigEndian, ofBigEndian_concat, ih, Nat.toUInt8_eq, UInt8.toNat_ofNat', pow_succ' 256, hm]
    omega

/-- A number read behind another one is added to it, shifted. -/
theorem foldl_bytes (bytes : List UInt8) (n : Nat) :
    bytes.foldl (fun n b => n * 256 + b.toNat) n = n * 256 ^ bytes.length + ofBigEndian bytes := by
  induction bytes generalizing n with
  | nil => simp [ofBigEndian]
  | cons b bytes ih =>
    have hz : ofBigEndian (b :: bytes) = _ := ih (0 * 256 + b.toNat)
    rw [List.foldl_cons, ih, List.length_cons, pow_succ', hz]
    ring

theorem ofBigEndian_cons (b : UInt8) (bytes : List UInt8) :
    ofBigEndian (b :: bytes) = b.toNat * 256 ^ bytes.length + ofBigEndian bytes := by
  rw [ofBigEndian, List.foldl_cons, foldl_bytes, Nat.zero_mul, Nat.zero_add]

theorem ofBigEndian_lt (bytes : List UInt8) : ofBigEndian bytes < 256 ^ bytes.length := by
  induction bytes with
  | nil => simp [ofBigEndian]
  | cons b bytes ih =>
    have hb : b.toNat < 256 := b.toNat_lt
    rw [ofBigEndian_cons, List.length_cons, pow_succ']
    nlinarith

theorem bigEndian_ofBigEndian (bytes : List UInt8) : bigEndian bytes.length (ofBigEndian bytes) = bytes := by
  induction bytes using List.reverseRecOn with
  | nil => rfl
  | append_singleton bytes b ih =>
    have hb : b.toNat < 256 := b.toNat_lt
    have hfront : (ofBigEndian bytes * 256 + b.toNat) / 256 = ofBigEndian bytes := by omega
    have hlast : (ofBigEndian bytes * 256 + b.toNat).toUInt8 = b := by
      rw [← UInt8.toNat_inj, Nat.toUInt8_eq, UInt8.toNat_ofNat']
      omega
    rw [ofBigEndian_concat, List.length_append, List.length_singleton, bigEndian, hfront, hlast, ih]

/-- A number is that of one string of bytes of each length, if any. -/
theorem ofBigEndian_inj {xs ys : List UInt8} (hl : xs.length = ys.length) (h : ofBigEndian xs = ofBigEndian ys) :
    xs = ys := by
  rw [← bigEndian_ofBigEndian xs, ← bigEndian_ofBigEndian ys, hl, h]

/-- Without a leading zero a number of `k + 1` bytes does not fit into `k`. -/
theorem pow_le_ofBigEndian {b : UInt8} (hb : b ≠ 0) (bytes : List UInt8) :
    256 ^ bytes.length ≤ ofBigEndian (b :: bytes) := by
  have h1 : 1 ≤ b.toNat := Nat.one_le_iff_ne_zero.mpr fun h => hb (UInt8.toNat_inj.mp h)
  rw [ofBigEndian_cons]
  nlinarith [Nat.pow_pos (n := bytes.length) (show 0 < 256 by decide)]

theorem ofBigEndian_dropWhile (bytes : List UInt8) :
    ofBigEndian (bytes.dropWhile (· == 0)) = ofBigEndian bytes := by
  induction bytes with
  | nil => rfl
  | cons b bytes ih =>
    by_cases hb : b = 0
    · subst hb
      rw [List.dropWhile_cons_of_pos rfl, ih, ofBigEndian_cons]
      simp
    · rw [List.dropWhile_cons_of_neg (by simpa using hb)]

/-! ### Headers -/

namespace Length

/-- The long form of a length: a count, and that many bytes of the length. -/
structure Long (n : Nat) (bytes : List UInt8) : Prop where
  count_pos : 1 ≤ bytes.length
  count_le : bytes.length ≤ 4
  value : ofBigEndian bytes = n

/-- The bytes of a long form that is written hold the length, and the first of them is no zero. -/
theorem encode_long {n : Nat} (hlong : 0x7F < n) (hn : n < 2 ^ 64) : ∃ b bytes, b ≠ 0 ∧ bytes.length < 8 ∧
    ofBigEndian (b :: bytes) = n ∧ encode n = (0x80 + (b :: bytes).length).toUInt8 :: b :: bytes := by
  have hv : ofBigEndian ((bigEndian 8 n).dropWhile (· == 0)) = n := by
    rw [ofBigEndian_dropWhile, ofBigEndian_bigEndian]
    exact Nat.mod_eq_of_lt (by norm_num; exact hn)
  have he : encode n = _ := if_neg (Nat.not_le.mpr hlong)
  have hlen := (List.dropWhile_suffix (· == 0) (l := bigEndian 8 n)).length_le
  have hhead := List.head_dropWhile_not (· == 0) (l := bigEndian 8 n)
  cases hbytes : (bigEndian 8 n).dropWhile (· == 0) with
  | nil =>
    rw [hbytes] at hv
    exact absurd hlong (by rw [← hv]; decide)
  | cons b bytes =>
    rw [hbytes, length_bigEndian] at hlen
    rw [hbytes] at hv he
    exact ⟨b, bytes, by simpa [hbytes] using hhead (by simp [hbytes]), hlen, hv, he⟩

/-- A header is the length itself, or a count in front of the bytes of the length. -/
theorem encode_cases {n : Nat} (h : n ≤ maxLength) :
    (n ≤ 0x7F ∧ encode n = [n.toUInt8]) ∨
      ∃ bytes, encode n = (0x80 + bytes.length).toUInt8 :: bytes ∧ Long n bytes := by
  unfold maxLength at h
  rcases Nat.lt_or_ge 0x7F n with hlong | hshort
  · obtain ⟨b, bytes, hb, -, hv, he⟩ := encode_long hlong (by omega)
    have hlen : bytes.length < 4 := by
      rw [← Nat.pow_lt_pow_iff_right (a := 256) (by decide)]
      exact (pow_le_ofBigEndian hb bytes).trans_lt (by omega)
    exact .inr ⟨b :: bytes, he, Nat.succ_pos _, hlen, hv⟩
  · exact .inl ⟨hshort, if_pos hshort⟩

theorem short_toNat {n : Nat} (h : n ≤ 0x7F) : n.toUInt8.toNat = n := by
  rw [Nat.toUInt8_eq, UInt8.toNat_ofNat']
  omega

theorem short_lt {n : Nat} (h : n ≤ 0x7F) : n.toUInt8 < 0x80 := by
  rw [UInt8.lt_iff_toNat_lt, short_toNat h]
  exact Nat.lt_succ_of_le h

theorem Long.count_toNat {n : Nat} {bytes : List UInt8} (h : Long n bytes) :
    (0x80 + bytes.length).toUInt8.toNat = 0x80 + bytes.length := by
  have := h.count_le
  rw [Nat.toUInt8_eq, UInt8.toNat_ofNat']
  omega

theorem Long.not_lt {n : Nat} {bytes : List UInt8} (h : Long n bytes) :
    ¬ (0x80 + bytes.length).toUInt8 < 0x80 := by
  rw [UInt8.lt_iff_toNat_lt, h.count_toNat]
  exact Nat.not_lt.mpr (Nat.le_add_right _ _)

/-- The bytes are a header for the length, and not always the shortest one. -/
inductive Declares : List UInt8 → Nat → Prop
  | short {first : UInt8} (h : first < 0x80) : Declares [first] first.toNat
  | long {first : UInt8} {n : Nat} {bytes : List UInt8} (h : ¬ first < 0x80)
      (hc : first.toNat - 0x80 = bytes.length) (hl : Long n bytes) (hm : n ≤ maxLength) : Declares (first :: bytes) n

theorem declares_encode {n : Nat} (h : n ≤ maxLength) : Declares (encode n) n := by
  obtain ⟨hn, he⟩ | ⟨bytes, he, hl⟩ := encode_cases h
  · have hs := Declares.short (short_lt hn)
    rwa [short_toNat hn, ← he] at hs
  · rw [he]
    exact .long hl.not_lt (by rw [hl.count_toNat, Nat.add_sub_cancel_left]) hl h

theorem Declares.length_pos {header : List UInt8} {n : Nat} (h : Declares header n) : 0 < header.length := by
  cases h <;> exact Nat.succ_pos _

theorem Declares.le_maxLength {header : List UInt8} {n : Nat} (h : Declares header n) : n ≤ maxLength := by
  cases h with
  | @short first _ =>
    have := first.toNat_lt
    unfold maxLength
    omega
  | long _ _ _ hm => exact hm

/-- A header is read whatever stands behind it. -/
theorem Declares.decode_append {header : List UInt8} {n : Nat} (h : Declares header n) (tail : List UInt8) :
    decode (header ++ tail) = .ok (n, header.length) := by
  cases h with
  | short h => exact if_pos h
  | long h hc hl hm =>
    have h1 := hl.count_pos
    have h4 := hl.count_le
    rw [List.cons_append, decode, if_neg h, hc, if_neg (by omega), List.take_left' rfl, if_neg (by omega), hl.value,
      if_neg (by omega), List.length_cons, Nat.add_comm]

/-- The bytes that a length is read from are a header for it. -/
theorem declares_of_decode {bytes : List UInt8} {n size : Nat} (h : decode bytes = .ok (n, size)) :
    ∃ header rest, Declares header n ∧ bytes = header ++ rest ∧ size = header.length := by
  cases bytes with
  | nil => cases h
  | cons first rest =>
    rw [decode] at h
    by_cases hshort : first < 0x80
    · rw [if_pos hshort] at h
      obtain ⟨rfl, rfl⟩ := Prod.mk.inj (Except.ok.inj h)
      exact ⟨[first], rest, .short hshort, rfl, rfl⟩
    · simp only [if_neg hshort] at h
      split at h
      · cases h
      split at h
      · cases h
      split at h
      · cases h
      rename_i hcount htaken hmax
      obtain ⟨hn, rfl⟩ := Prod.mk.inj (Except.ok.inj h)
      have hlen : (rest.take (first.toNat - 0x80)).length = first.toNat - 0x80 :=
        Nat.le_antisymm (List.length_take_le _ _) (Nat.not_lt.mp htaken)
      refine ⟨first :: rest.take (first.toNat - 0x80), rest.drop (first.toNat - 0x80),
        .long hshort hlen.symm ⟨by omega, by omega, hn⟩ (by omega), ?_, ?_⟩
      · rw [List.cons_append, List.take_append_drop]
      · rw [List.length_cons, hlen, Nat.add_comm]

end Length

end Ldap.Ber
