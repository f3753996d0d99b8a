import Ldap.Ber.Element
import Ldap.Text.Blank

/-! Decimal numerals: digits after an optional sign, within the range of the number they stand for. -/

namespace Ldap.Text

inductive NumeralError where
  | empty
  | invalidDigit
  | tooLarge
deriving DecidableEq, Repr

def NumeralError.message : NumeralError → String
  | .empty => "cannot parse integer from empty string"
  | .invalidDigit => "invalid digit found in string"
  | .tooLarge => "number too large to fit in target type"

/-- The largest number of 64 bits. -/
def maxNat64 : Nat := 0xFFFFFFFFFFFFFFFF

/-- The largest number of 64 bits with a sign. -/
def maxInt64 : Nat := 0x7FFFFFFFFFFFFFFF

/-- Reads digits behind a number already read. Of two faults the earlier one counts. -/
def readDigits (maximum : Nat) : Nat → List Char → Except NumeralError Nat
  | n, [] => .ok n
  | n, c :: cs =>
    if c.isDigit then
      let next := n * 10 + (c.toNat - '0'.toNat)
      if maximum < next then .error .tooLarge else readDigits maximum next cs
    else .error .invalidDigit

/-- Reads a number up to a maximum. A plus sign may stand before its digits. -/
def readNat (maximum : Nat) : List Char → Except NumeralError Nat
  | [] => .error .empty
  | ['+'] => .error .invalidDigit
  | '+' :: cs => readDigits maximum 0 cs
  | cs => readDigits maximum 0 cs

/-- Reads a 64-bit number with an optional sign. -/
def readInt64? (cs : List Char) : Option Int64 :=
  match cs with
  | ['-'] => none
  | '-' :: digits => (readDigits (maxInt64 + 1) 0 digits).toOption.map fun n => Int64.ofInt (-n)
  | _ => (readNat maxInt64 cs).toOption.map fun n => Int64.ofNat n

/-- The number that bytes spell, blanks around it aside. -/
def numberOf? (bytes : List UInt8) : Option Int64 :=
  (Ber.utf8Text? bytes).bind fun s => readInt64? (trimChars s.toList)

end Ldap.Text
