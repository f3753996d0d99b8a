import Ldap.Ber.Error

/-! The length header of an element. A length up to 127 is one byte. A larger one is a byte
`0x80 + n` followed by the `n` bytes of the length, most significant first. -/

namespace Ldap.Ber

/-- The last `count` bytes of a number, most significant first. -/
def bigEndian : Nat → Nat → List UInt8
  | 0, _ => []
  | count + 1, n => bigEndian count (n / 256) ++ [n.toUInt8]

/-- The number that bytes stand for, most significant first. -/
def ofBigEndian (bytes : List UInt8) : Nat :=
  bytes.foldl (fun n b => n * 256 + b.toNat) 0

namespace Length

/-- The shortest header for a length below `2 ^ 64`. -/
def encode (n : Nat) : List UInt8 :=
  if n ≤ 0x7F then [n.toUInt8]
  else
    let bytes := (bigEndian 8 n).dropWhile (· == 0)
    (0x80 + bytes.length).toUInt8 :: bytes

/-- The number of bytes in the header for a length. -/
def headerSize (n : Nat) : Nat :=
  if n ≤ 0x7F then 1 else 1 + (n.log2 / 8 + 1)

/-- Reads the header at the start of the data: the length and the size of the header. -/
def decode : List UInt8 → Except Error (Nat × Nat)
  | [] => .error (.truncated "length")
  | first :: rest =>
    if first < 0x80 then .ok (first.toNat, 1)
    else
      let count := first.toNat - 0x80
      if count < 1 ∨ 4 < count then .error (.lengthByteCount count)
      else
        let bytes := rest.take count
        if bytes.length < count then .error (.truncated "length")
        else
          let length := ofBigEndian bytes
          if maxLength < length then .error (.lengthExceedsMaximum length maxLength)
          else .ok (length, 1 + count)

end Length

end Ldap.Ber
