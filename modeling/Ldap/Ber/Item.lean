import Ldap.Ber.Element

/-! The tree of items that a message is written as, and its encoding computed from the leaves up:
tag, length of the encoded value, value. -/

namespace Ldap.Ber

inductive Item where
  | boolean (tag : UInt8) (value : Bool)
  /-- An integer or an enumerated value. -/
  | integer (tag : UInt8) (value : Int64)
  | null (tag : UInt8)
  | octets (tag : UInt8) (value : List UInt8)
  | text (tag : UInt8) (value : String)
  /-- A sequence or a set. -/
  | constructed (tag : UInt8) (components : List Item)
deriving Inhabited

namespace Item

/-! ### Items under their universal tags -/

def ofBool (b : Bool) : Item := .boolean booleanTag b
def ofInt32 (n : Int32) : Item := .integer integerTag n.toInt64
def enumerated (n : Int32) : Item := .integer enumeratedTag n.toInt64
def ofBytes (bytes : List UInt8) : Item := .octets octetStringTag bytes
def ofText (s : String) : Item := .text octetStringTag s
def sequence (components : List Item) : Item := .constructed sequenceTag components
def set (components : List Item) : Item := .constructed setTag components

def booleanByte (b : Bool) : UInt8 :=
  if b then 0xFF else 0x00

mutual

/-- The reference encoding of an item. -/
def encode : Item → List UInt8
  | .boolean tag value => Element.encode ⟨tag, [booleanByte value]⟩
  | .integer tag value => Element.encode ⟨tag, Integer.encode value⟩
  | .null tag => Element.encode ⟨tag, []⟩
  | .octets tag value => Element.encode ⟨tag, value⟩
  | .text tag value => Element.encode ⟨tag, utf8Bytes value⟩
  | .constructed tag components => Element.encode ⟨tag, encodeAll components⟩

/-- The encodings of items, one after the other. -/
def encodeAll : List Item → List UInt8
  | [] => []
  | item :: rest => encode item ++ encodeAll rest

end

end Item

end Ldap.Ber
