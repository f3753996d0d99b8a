import Ldap.Ber.Integer

/-! A single element, a tag with the bytes of its value, and its decoding from a slice of bytes. -/

namespace Ldap.Ber

/-! ### Universal tags -/

def booleanTag : UInt8 := 0x01
def integerTag : UInt8 := 0x02
def octetStringTag : UInt8 := 0x04
def nullTag : UInt8 := 0x05
def enumeratedTag : UInt8 := 0x0A
def sequenceTag : UInt8 := 0x30
def setTag : UInt8 := 0x31

/-- The text of UTF-8 bytes, or `none` if they are no UTF-8. -/
def utf8Text? (bytes : List UInt8) : Option String :=
  String.fromUTF8? (ByteArray.mk bytes.toArray)

/-- The UTF-8 bytes of a text. -/
def utf8Bytes (s : String) : List UInt8 :=
  s.toUTF8.data.toList

structure Element where
  tag : UInt8
  value : List UInt8
deriving DecidableEq, Repr

namespace Element

/-- The tag marks a value made of further elements. -/
def isConstructed (e : Element) : Bool :=
  e.tag &&& 0x20 != 0

def encode (e : Element) : List UInt8 :=
  e.tag :: (Length.encode e.value.length ++ e.value)

/-- Reads the element at the start of the data, with the number of bytes it takes. -/
def decodePrefix : List UInt8 → Except Error (Element × Nat)
  | [] => .error (.truncated "type")
  | tag :: rest => do
    let (length, header) ← Length.decode rest
    let value := (rest.drop header).take length
    if value.length < length then .error (.truncated "value")
    else .ok (⟨tag, value⟩, 1 + header + length)

/-- Reads exactly one element; bytes after it are an error. -/
def decode (data : List UInt8) : Except Error Element := do
  let (element, consumed) ← decodePrefix data
  if consumed = data.length then .ok element
  else
    let trailing := data.length - consumed
    .error (.malformed s!"{trailing} trailing bytes after element")

/-- Splits data into at most `count` elements that follow one another. -/
def decodeMany : Nat → List UInt8 → Except Error (List Element)
  | _, [] => .ok []
  | 0, _ => .ok []
  | count + 1, data => do
    let (element, consumed) ← decodePrefix data
    let rest ← decodeMany count (data.drop consumed)
    .ok (element :: rest)

/-- The elements inside the value. Each takes a byte or more, so their number is bounded by the
size of the value. -/
def elements (e : Element) : Except Error (List Element) :=
  decodeMany e.value.length e.value

def asBoolean (e : Element) : Except Error Bool :=
  match e.value with
  | [b] => .ok (b != 0)
  | other => .error (.valueLength "boolean" other.length)

def asInteger (e : Element) : Except Error Int32 :=
  if 1 ≤ e.value.length ∧ e.value.length ≤ 4 then .ok (Int32.ofInt (Integer.decode e.value))
  else .error (.valueLength "integer" e.value.length)

def asLong (e : Element) : Except Error Int64 :=
  if 1 ≤ e.value.length ∧ e.value.length ≤ 8 then .ok (Int64.ofInt (Integer.decode e.value))
  else .error (.valueLength "long" e.value.length)

def asText (e : Element) : Except Error String :=
  match utf8Text? e.value with
  | some s => .ok s
  | none => .error .invalidUtf8

/-- Refuses an element of another type. -/
def expectTag (e : Element) (expected : UInt8) : Except Error Unit :=
  if e.tag = expected then .ok () else .error (.unexpectedType expected e.tag)

end Element

end Ldap.Ber
