import Ldap.Proofs.Ber.Length

/-! The shortest length header. A length has many definite forms: a small one is a byte by itself, and any may stand
behind a count with zeros in front. The header that is written is one of them, and every other one is longer, since
its bytes begin with no zero; so the size that is computed from the position of the highest bit is its size. -/

namespace Ldap.Ber.Length

variable {n : Nat} {header : List UInt8}

/-- The bytes are a definite form of the length: the length in one byte below `0x80`, or a count below 127 and as many
bytes of the length. -/
inductive Definite : List UInt8 → Nat → Prop
  | short {n : Nat} (h : n ≤ 0x7F) : Definite [n.toUInt8] n
  | long {bytes : List UInt8} (hpos : 1 ≤ bytes.length) (hlt : bytes.length < 0x7F) :
      Definite ((0x80 + bytes.length).toUInt8 :: bytes) (ofBigEndian bytes)

theorem definite_encode (hn : n < 2 ^ 64) : Definite (encode n) n := by
  rcases Nat.lt_or_ge 0x7F n with hlong | hshort
  · obtain ⟨b, bytes, -, hlen, rfl, he⟩ := encode_long hlong hn
    rw [he]
    exact .long (Nat.succ_pos _) (by simp only [List.length_cons]; omega)
  · rw [encode, if_pos hshort]
    exact .short hshort

/-- The highest bit of a number is in its first byte, if that is no zero. -/
theorem log2_ofBigEndian {b : UInt8} (hb : b ≠ 0) (bytes : List UInt8) :
    (ofBigEndian (b :: bytes)).log2 / 8 = bytes.length := by
  have hlow : 2 ^ (8 * bytes.length) ≤ ofBigEndian (b :: bytes) := by
    rw [pow_mul]
    exact pow_le_ofBigEndian hb bytes
  have hhigh : ofBigEndian (b :: bytes) < 2 ^ (8 * (bytes.length + 1)) := by
    rw [pow_mul]
    exact ofBigEndian_lt (b :: bytes)
  have hne : ofBigEndian (b :: bytes) ≠ 0 := fun h => by simp [h] at hlow
  have h1 := (Nat.le_log2 hne).mpr hlow
  have h2 := (Nat.log2_lt hne).mpr hhigh
  omega

/-- The size that is computed without writing the header is that of the header. -/
theorem length_encode (hn : n < 2 ^ 64) : (encode n).length = headerSize n := by
  rcases Nat.lt_or_ge 0x7F n with hlong | hshort
  · obtain ⟨b, bytes, hb, -, rfl, he⟩ := encode_long hlong hn
    rw [he, headerSize, if_neg (Nat.not_le.mpr hlong), log2_ofBigEndian hb]
    simp only [List.length_cons]
    omega
  · rw [encode, headerSize, if_pos hshort, if_pos hshort]
    rfl

/-- A length has no definite form as short as the header that is written, other than that one. -/
theorem Definite.eq_or_lt (h : Definite header n) (hn : n < 2 ^ 64) :
    header = encode n ∨ (encode n).length < header.length := by
  cases h with
  | short h => exact .inl (by rw [encode, if_pos h])
  | @long bytes hpos hlt =>
    rcases Nat.lt_or_ge 0x7F (ofBigEndian bytes) with hlong | hshort
    · obtain ⟨b, shortest, hb, -, hv, he⟩ := encode_long hlong hn
      have hlen : shortest.length < bytes.length := by
        rw [← Nat.pow_lt_pow_iff_right (a := 256) (by decide)]
        exact (hv ▸ pow_le_ofBigEndian hb shortest).trans_lt (ofBigEndian_lt bytes)
      rcases Nat.lt_or_eq_of_le hlen with hmore | hsame
      · right
        rw [he]
        simp only [List.length_cons]
        omega
      · left
        obtain rfl : b :: shortest = bytes := ofBigEndian_inj hsame hv
        exact he.symm
    · right
      rw [encode, if_pos hshort]
      exact Nat.succ_lt_succ hpos

end Ldap.Ber.Length
