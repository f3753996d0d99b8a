import Ldap.Ber.Item

/-! The buffer that messages are written into. It only grows at its end, apart from length headers:
a constructed value is opened with one byte for its length, and when it is closed that byte is
rewritten, and widened in place if the value needs the long form. -/

namespace Ldap.Ber

structure Buffer where
  bytes : Array UInt8 := #[]
  /-- Clearing also overwrites the bytes, for buffers that carried credentials. -/
  zeroOnClear : Bool := false

namespace Buffer

def empty : Buffer := {}

def size (b : Buffer) : Nat := b.bytes.size

def isEmpty (b : Buffer) : Bool := b.bytes.isEmpty

def toList (b : Buffer) : List UInt8 := b.bytes.toList

def clear (b : Buffer) : Buffer := { b with bytes := #[] }

def setZeroOnClear (b : Buffer) (zero : Bool) : Buffer := { b with zeroOnClear := zero }

def append (b : Buffer) (bytes : List UInt8) : Buffer := { b with bytes := b.bytes ++ bytes }

/-- Replaces the bytes from `start` up to `stop`. -/
def splice (b : Buffer) (start stop : Nat) (bytes : List UInt8) : Buffer :=
  { b with bytes := b.bytes.extract 0 start ++ bytes ++ b.bytes.extract stop b.bytes.size }

def addBoolean (b : Buffer) (tag : UInt8) (value : Bool) : Buffer :=
  b.append [tag, 0x01, Item.booleanByte value]

def addInteger (b : Buffer) (tag : UInt8) (value : Int64) : Buffer :=
  let bytes := Integer.encode value
  b.append (tag :: bytes.length.toUInt8 :: bytes)

def addNull (b : Buffer) (tag : UInt8) : Buffer :=
  b.append [tag, 0x00]

def addOctets (b : Buffer) (tag : UInt8) (value : List UInt8) : Buffer :=
  ((b.append [tag]).append (Length.encode value.length)).append value

/-- Writes the header as if each character were one byte, and rewrites it once the text turns out
to be longer than that. -/
def addText (b : Buffer) (tag : UInt8) (value : String) : Buffer :=
  let tagged := b.append [tag]
  let headed := tagged.append (Length.encode value.length)
  let full := headed.append (utf8Bytes value)
  if value.utf8ByteSize = value.length then full
  else full.splice tagged.size headed.size (Length.encode value.utf8ByteSize)

def addElement (b : Buffer) (e : Element) : Buffer :=
  b.addOctets e.tag e.value

/-- Opens a constructed value, with one byte held for its length. -/
def beginConstructed (b : Buffer) (tag : UInt8) : Buffer :=
  b.append [tag, 0x00]

/-- Closes the constructed value whose first byte is at `start`. -/
def finish (b : Buffer) (start : Nat) : Buffer :=
  b.splice (start - 1) start (Length.encode (b.size - start))

mutual

/-- Writes an item at the end of the buffer. -/
def add : Item → Buffer → Buffer
  | .boolean tag value, b => b.addBoolean tag value
  | .integer tag value, b => b.addInteger tag value
  | .null tag, b => b.addNull tag
  | .octets tag value, b => b.addOctets tag value
  | .text tag value, b => b.addText tag value
  | .constructed tag components, b =>
    let opened := b.beginConstructed tag
    (addAll components opened).finish opened.size

def addAll : List Item → Buffer → Buffer
  | [], b => b
  | item :: rest, b => addAll rest (add item b)

end

end Buffer

/-- The bytes of an item, written through a buffer. -/
def Item.toBytes (item : Item) : List UInt8 :=
  (Buffer.add item Buffer.empty).toList

end Ldap.Ber
