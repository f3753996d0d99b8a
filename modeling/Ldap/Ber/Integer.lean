import Ldap.Ber.Length

/-! Integers in two's complement, most significant byte first, in as few bytes as keep the sign. -/

namespace Ldap.Ber.Integer

/-- Drops leading bytes that only repeat the sign bit of the byte after them. -/
def trim : List UInt8 → List UInt8
  | a :: b :: rest =>
    if (a = 0x00 ∧ b < 0x80) ∨ (a = 0xFF ∧ 0x80 ≤ b) then trim (b :: rest) else a :: b :: rest
  | bytes => bytes

/-- The shortest bytes of a value. -/
def encode (v : Int64) : List UInt8 :=
  trim (bigEndian 8 v.toUInt64.toNat)

/-- The value of bytes, the sign taken from the first bit. -/
def decode (bytes : List UInt8) : Int :=
  let sign : Int := if bytes.head?.any (0x80 ≤ ·) then -1 else 0
  bytes.foldl (fun n b => n * 256 + b.toNat) sign

end Ldap.Ber.Integer
