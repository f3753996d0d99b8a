import Ldap.Text.Hex

/-! What can go wrong while an element is encoded or decoded. -/

namespace Ldap.Ber

open Text (upperHexByte)

/-- The largest length an element may declare: lengths are signed 32-bit values. -/
def maxLength : Nat := 0x7FFFFFFF

inductive Error where
  /-- A long-form length announces no bytes, or more than four. -/
  | lengthByteCount (count : Nat)
  | lengthExceedsMaximum (length maximum : Nat)
  /-- The value has a size that its type does not admit. -/
  | valueLength (kind : String) (length : Nat)
  /-- The input ends inside the named part of an element. -/
  | truncated (part : String)
  | unexpectedType (expected found : UInt8)
  /-- More bytes were read than the open sequence declares. -/
  | sequenceOverrun (length : Nat)
  | invalidUtf8
  /-- The elements are well formed but do not make up what is read. -/
  | malformed (reason : String)
  /-- A read timed out, before the first byte of an element or later. -/
  | timeout (initial : Bool)
  | transport (reason : String)
deriving DecidableEq, Repr

namespace Error

def message : Error → String
  | .lengthByteCount count => s!"invalid number of length bytes: {count} (expected 1 to 4)"
  | .lengthExceedsMaximum length maximum =>
    s!"element length {length} exceeds the maximum allowed size of {maximum} bytes"
  | .valueLength kind length => s!"invalid {kind} value length: {length} bytes"
  | .truncated part => s!"unexpected end of input while reading {part}"
  | .unexpectedType expected found =>
    "element of type 0x" ++ upperHexByte found ++ " found where 0x" ++ upperHexByte expected
      ++ " was expected"
  | .sequenceOverrun length => s!"read past the end of a sequence declaring {length} bytes"
  | .invalidUtf8 => "value is not valid UTF-8"
  | .malformed reason => reason
  | .timeout initial => s!"timed out waiting for element data (first byte: {initial})"
  | .transport reason => s!"I/O error: {reason}"

/-- Whether the transport failed, as against the bytes that it delivered. -/
def isTransport : Error → Bool
  | .timeout _ | .transport _ => true
  | _ => false

end Error

end Ldap.Ber
