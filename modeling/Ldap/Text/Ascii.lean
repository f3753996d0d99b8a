/-! Case folding that touches ASCII letters only, of texts and of bytes. -/

namespace Ldap.Text

/-- A text with its ASCII letters in lower case. -/
def lowerAscii (s : String) : String :=
  String.ofList (s.toList.map Char.toLower)

/-- Equality of texts up to the case of ASCII letters. -/
def sameText (s t : String) : Bool :=
  lowerAscii s == lowerAscii t

def lowerByte (b : UInt8) : UInt8 :=
  if 0x41 ≤ b ∧ b ≤ 0x5A then b + 0x20 else b

/-- Bytes with those that stand for ASCII letters in lower case. -/
def lowerBytes (bytes : List UInt8) : List UInt8 :=
  bytes.map lowerByte

/-- Equality of bytes up to the case of ASCII letters. -/
def sameBytes (a b : List UInt8) : Bool :=
  lowerBytes a == lowerBytes b

end Ldap.Text
