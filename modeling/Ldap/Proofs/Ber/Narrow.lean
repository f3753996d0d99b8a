import Ldap.Proofs.Ber.Aligned
import Ldap.Proofs.Ber.Consumes
import Ldap.Proofs.Ber.Integer

/-! The width of integers. A value is written in the fewest bytes that stand for it. It can be taken up in a 64-bit word,
a byte at a time, and four bytes stand for no more than a 32-bit word holds: wherever a 32-bit integer can be read, a
64-bit one is the same number. -/

namespace Ldap.Ber.Integer

variable {bytes : List UInt8}

/-! ### Words -/

/-- The value as it grows in a 64-bit word: all bits are the sign at first, and each byte moves those before it up. -/
def accumulate (bytes : List UInt8) : Int64 :=
  bytes.foldl (fun n b => n <<< 8 ||| b.toUInt64.toInt64) (if bytes.head?.any (0x80 ≤ ·) then -1 else 0)

theorem shift_or (n : Int) (b : UInt8) :
    Int64.ofInt n <<< 8 ||| b.toUInt64.toInt64 = Int64.ofInt (n * 256 + b.toNat) := by
  have hdisjoint : (BitVec.ofInt 64 n <<< 8) &&& b.toBitVec.setWidth 64 = 0#64 := by
    ext i hi
    simp only [BitVec.getElem_and, BitVec.getElem_shiftLeft, BitVec.getElem_setWidth, BitVec.getElem_zero]
    by_cases h : i < 8
    · simp [h]
    · simp [BitVec.getLsbD_of_ge _ _ (Nat.not_lt.mp h)]
  have hshift : (BitVec.ofInt 64 n <<< 8) = BitVec.ofInt 64 (n * 256) := by
    rw [BitVec.shiftLeft_eq_mul_twoPow, BitVec.ofInt_mul]
    rfl
  have hbyte : b.toBitVec.setWidth 64 = BitVec.ofInt 64 b.toNat := by
    rw [BitVec.ofInt_natCast]
    exact (BitVec.ofNat_toNat 64 b.toBitVec).symm
  rw [← Int64.toBitVec_inj, Int64.toBitVec_or, Int64.toBitVec_shiftLeft, Int64.toBitVec_ofInt, Int64.toBitVec_ofInt,
    UInt64.toBitVec_toInt64, UInt8.toBitVec_toUInt64, BitVec.ofInt_add, ← hbyte, ← hshift,
    BitVec.add_eq_or_of_and_eq_zero _ _ hdisjoint]
  rfl

/-- A word takes up the value, modulo its size. -/
theorem accumulate_eq (bytes : List UInt8) : accumulate bytes = Int64.ofInt (decode bytes) := by
  have hsign : (if bytes.head?.any (0x80 ≤ ·) then -1 else 0 : Int64) =
      Int64.ofInt (if bytes.head?.any (0x80 ≤ ·) then -1 else 0) := by
    split <;> rfl
  rw [accumulate, hsign]
  exact List.foldl_hom Int64.ofInt shift_or

theorem toInt_ofInt_decode (h : bytes.length ≤ 8) : (Int64.ofInt (decode bytes)).toInt = decode bytes := by
  obtain ⟨hlo, hhi⟩ := decode_range (k := 7) h
  exact Int64.toInt_ofInt_of_le (by norm_num at hlo ⊢; exact hlo) (by norm_num at hhi ⊢; exact hhi)

/-- Four bytes hold as many values as a 32-bit word. -/
theorem decode_int32 (h : bytes.length ≤ 4) :
    Int32.minValue.toInt ≤ decode bytes ∧ decode bytes ≤ Int32.maxValue.toInt := by
  obtain ⟨hlo, hhi⟩ := decode_range (k := 3) h
  norm_num at hlo hhi
  exact ⟨hlo, Int.lt_add_one_iff.mp hhi⟩

/-! ### Reads -/

/-- A 32-bit integer is the value of its bytes, and is what a 64-bit integer would be. -/
theorem asInteger_of_length {e : Element} (hpos : 1 ≤ e.value.length) (h : e.value.length ≤ 4) :
    ∃ n, e.asInteger = .ok n ∧ n.toInt = decode e.value ∧ e.asLong = .ok n.toInt64 := by
  obtain ⟨hlo, hhi⟩ := decode_int32 h
  refine ⟨Int32.ofInt (decode e.value), ?_, ?_, ?_⟩
  · rw [Element.asInteger, if_pos ⟨hpos, h⟩]
  · exact Int32.toInt_ofInt_of_le hlo (Int.lt_add_one_iff.mpr hhi)
  · rw [Element.asLong, if_pos ⟨hpos, h.trans (by decide)⟩, Int32.toInt64_ofInt hlo hhi]

end Integer

namespace ReadM

variable {r r' : Reader}

theorem length_of_run_bytes {n : Nat} {part : String} {bs : List UInt8} (h : (bytes n part).run r = .ok bs r') :
    bs.length = n := by
  cases hs : r.source with
  | none =>
    rw [run_bytes_of_closed hs] at h
    split_ifs at h with hn
    cases h
    exact hn.symm
  | some ds =>
    rw [run_bytes_of_open hs] at h
    dsimp only at h
    split at h
    · rename_i hfilled
      cases h
      exact length_got _ _ _ hfilled
    all_goals cases h

/-- Where a 32-bit integer can be read, a 64-bit one is the same number, and leaves the reader at the same place. -/
theorem run_long_of_integer {n : Int32} (h : integer.run r = .ok n r') : long.run r = .ok n.toInt64 r' := by
  have ha : integer.answer r = .ok (n, r') := by rw [answer, h]
  obtain ⟨size, q, hheader, ha⟩ := answer_bind_inv ha
  split at ha
  · rename_i hsize
    obtain ⟨bs, q', hvalue, ha⟩ := answer_bind_inv ha
    cases ha
    have hlen : bs.length = size := length_of_run_bytes (run_of_answer_ok hvalue)
    obtain ⟨hlo, hhi⟩ := Integer.decode_int32 (hlen ▸ hsize.2)
    rw [long, run_bind_of_ok (run_of_answer_ok hheader), if_pos ⟨hsize.1, hsize.2.trans (by decide)⟩,
      run_bind_of_ok (run_of_answer_ok hvalue), Int32.toInt64_ofInt hlo hhi]
    rfl
  · exact absurd ha Consumes.not_rejectLength

end ReadM

namespace Integer

/-! ### Widths -/

/-- A 64-bit word takes up the value of bytes. An integer is written in at most eight bytes, a 32-bit one in at most
four, and they stand for it; any others that stand for it are more. One to four bytes stand for a 32-bit integer, and
that is what is read from them, in memory and from a stream. -/
theorem encode_shortest :
    (∀ bytes, accumulate bytes = Int64.ofInt (decode bytes)) ∧
    (∀ v : Int64, 1 ≤ (encode v).length ∧ (encode v).length ≤ 8 ∧ decode (encode v) = v.toInt ∧
      ∀ bytes, bytes ≠ [] → Int64.ofInt (decode bytes) = v → bytes = encode v ∨ (encode v).length < bytes.length) ∧
    (∀ n : Int32, (encode n.toInt64).length ≤ 4) ∧
    (∀ bytes, 1 ≤ bytes.length → bytes.length ≤ 4 →
      Int32.minValue.toInt ≤ decode bytes ∧ decode bytes ≤ Int32.maxValue.toInt ∧
      ∀ tag, ∃ n, Element.asInteger ⟨tag, bytes⟩ = .ok n ∧ n.toInt = decode bytes ∧
        Element.asLong ⟨tag, bytes⟩ = .ok n.toInt64) ∧
    ∀ r r' n, ReadM.integer.run r = .ok n r' → ReadM.long.run r = .ok n.toInt64 r' := by
  refine ⟨accumulate_eq, fun v => ⟨length_encode_pos v, length_encode_le v, decode_encode v, fun bytes hne h => ?_⟩,
    length_encode_int32_le, fun bytes hpos hle => ?_, fun r r' n h => ReadM.run_long_of_integer h⟩
  · rcases Nat.lt_or_ge 8 bytes.length with hlong | hword
    · exact .inr ((length_encode_le v).trans_lt hlong)
    · exact eq_encode_or_lt hne (by rw [← h, toInt_ofInt_decode hword])
  · obtain ⟨hlo, hhi⟩ := decode_int32 hle
    exact ⟨hlo, hhi, fun tag => asInteger_of_length (e := ⟨tag, bytes⟩) hpos hle⟩

/-- A number just too small for one byte, with a byte in front of it that it does not need, and the smallest number of
32 bits, in memory and in pieces on a stream. -/
theorem encode_shortest_negative :
    let bytes : List UInt8 := [0xFF, 0xFF, 0x7F]
    let r := Reader.ofDeliveries [.bytes [0x02, 0x04, 0x80], .interrupted, .bytes [0x00, 0x00, 0x00]]
    let r' : Reader := { source := some [], consumed := 6 }
    encode (-129) = [0xFF, 0x7F] ∧ accumulate bytes = -129 ∧ (encode (-129)).length < bytes.length ∧
      ReadM.integer.run r = .ok (-0x80000000) r' ∧ ReadM.long.run r = .ok (-0x80000000) r' ∧
      ∃ n, Element.asInteger ⟨0x02, [0x80, 0x00, 0x00, 0x00]⟩ = .ok n ∧ n.toInt = -0x80000000 ∧
        Element.asLong ⟨0x02, [0x80, 0x00, 0x00, 0x00]⟩ = .ok n.toInt64 := by
  intro bytes r r'
  obtain ⟨hword, hencode, -, hnarrow, hread⟩ := encode_shortest
  have hbytes : Int64.ofInt (decode bytes) = -129 := by decide
  have hother := (hencode (-129)).2.2.2 bytes (by decide) hbytes
  have hinteger : ReadM.integer.run r = .ok (-0x80000000) r' := by rfl
  exact ⟨by decide, (hword bytes).trans hbytes, hother.resolve_left (by decide), hinteger, hread r r' _ hinteger,
    (hnarrow [0x80, 0x00, 0x00, 0x00] (by decide) (by decide)).2.2 0x02⟩

end Ldap.Ber.Integer
