/-! Text from bytes that may not be UTF-8. Each longest run of bytes that begins a character without
completing one, or that can begin none, becomes one replacement character. -/

namespace Ldap.Text

def replacement : Char := '\uFFFD'

/-- The number of continuation bytes that a first byte calls for, the bits it contributes, and the
range of the first continuation byte. -/
def leadByte? (b : UInt8) : Option (Nat × Nat × UInt8 × UInt8) :=
  let n := b.toNat
  if 0xC2 ≤ n ∧ n ≤ 0xDF then some (1, n - 0xC0, 0x80, 0xBF)
  else if n = 0xE0 then some (2, 0, 0xA0, 0xBF)
  else if n = 0xED then some (2, n - 0xE0, 0x80, 0x9F)
  else if 0xE1 ≤ n ∧ n ≤ 0xEF then some (2, n - 0xE0, 0x80, 0xBF)
  else if n = 0xF0 then some (3, 0, 0x90, 0xBF)
  else if n = 0xF4 then some (3, n - 0xF0, 0x80, 0x8F)
  else if 0xF1 ≤ n ∧ n ≤ 0xF3 then some (3, n - 0xF0, 0x80, 0xBF)
  else none

/-- A character under way: the continuation bytes still missing, the bits so far, and the range of
the next byte. -/
structure Partial where
  missing : Nat
  bits : Nat
  low : UInt8
  high : UInt8

/-- Takes a byte where a character may begin. -/
def beginChar (b : UInt8) : List Char × Option Partial :=
  if b < 0x80 then ([Char.ofNat b.toNat], none)
  else match leadByte? b with
    | some (missing, bits, low, high) => ([], some ⟨missing, bits, low, high⟩)
    | none => ([replacement], none)

/-- Decodes bytes behind a character under way. -/
def decodeLossy : Option Partial → List UInt8 → List Char
  | none, [] => []
  | some _, [] => [replacement]
  | none, b :: rest =>
    let (chars, next) := beginChar b
    chars ++ decodeLossy next rest
  | some p, b :: rest =>
    if p.low ≤ b ∧ b ≤ p.high then
      let bits := p.bits * 64 + (b.toNat - 0x80)
      if p.missing = 1 then Char.ofNat bits :: decodeLossy none rest
      else decodeLossy (some ⟨p.missing - 1, bits, 0x80, 0xBF⟩) rest
    else
      let (chars, next) := beginChar b
      replacement :: chars ++ decodeLossy next rest

/-- The text of bytes, with what is no UTF-8 replaced. -/
def ofBytesLossy (bytes : List UInt8) : String :=
  String.ofList (decodeLossy none bytes)

end Ldap.Text
