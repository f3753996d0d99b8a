import Ldap.Ber.Item
import Ldap.Ber.Reader
import Ldap.Filter.Basic

/-! Filters on the wire. A filter is read with a bound on its nesting, so that a hostile one cannot
exhaust the reader. -/

namespace Ldap.Filter

open Ber (Item ReadM Bounds)
open Text (upperHexByte)

/-- The deepest nesting accepted. A filter that stands alone has depth zero. -/
def maxDepth : Nat := 64

/-! ### Tags -/

def andTag : UInt8 := 0xA0
def orTag : UInt8 := 0xA1
def notTag : UInt8 := 0xA2
def substringsTag : UInt8 := 0xA4
def presentTag : UInt8 := 0x87
def extensibleTag : UInt8 := 0xA9

def comparisonTag : Comparison → UInt8
  | .equality => 0xA3
  | .greaterOrEqual => 0xA5
  | .lessOrEqual => 0xA6
  | .approximate => 0xA8

def comparisonOfTag? (tag : UInt8) : Option Comparison :=
  [.equality, .greaterOrEqual, .lessOrEqual, .approximate].find? (comparisonTag · == tag)

def initialTag : UInt8 := 0x80
def anyTag : UInt8 := 0x81
def finalTag : UInt8 := 0x82

def ruleTag : UInt8 := 0x81
def nameTag : UInt8 := 0x82
def valueTag : UInt8 := 0x83
def dnAttributesTag : UInt8 := 0x84

/-! ### Writing -/

mutual

def toItem : Filter → Item
  | .and filters => .constructed andTag (toItems filters)
  | .or filters => .constructed orTag (toItems filters)
  | .not filter => .constructed notTag [toItem filter]
  | .compare comparison name value =>
    .constructed (comparisonTag comparison) [.ofText name, .ofBytes value]
  | .substrings name initial any final =>
    .constructed substringsTag [.ofText name, .sequence (
      (initial.map (Item.octets initialTag)).toList ++ any.map (Item.octets anyTag)
        ++ (final.map (Item.octets finalTag)).toList)]
  | .present name => .text presentTag name
  | .extensible rule name value dnAttributes =>
    .constructed extensibleTag ((rule.map (Item.text ruleTag)).toList
      ++ (name.map (Item.text nameTag)).toList ++ [.octets valueTag value]
      ++ if dnAttributes then [.boolean dnAttributesTag true] else [])

def toItems : List Filter → List Item
  | [] => []
  | filter :: rest => toItem filter :: toItems rest

end

/-! ### Reading -/

/-- The parts of a substrings filter read so far. -/
structure Parts where
  initial : Option (List UInt8) := none
  any : List (List UInt8) := []
  final : Option (List UInt8) := none

namespace Parts

/-- Adds a part. The first may be the initial one and the last the final one. -/
def add (parts : Parts) (tag : UInt8) (value : List UInt8) : Except Ber.Error Parts :=
  if tag = initialTag ∧ parts.initial.isNone ∧ parts.any.isEmpty then
    .ok { parts with initial := some value }
  else if tag = anyTag ∧ parts.final.isNone then
    .ok { parts with any := parts.any ++ [value] }
  else if tag = finalTag ∧ parts.final.isNone then
    .ok { parts with final := some value }
  else .error (.malformed ("unexpected substring component 0x" ++ upperHexByte tag))

def read (parts : Parts) : ReadM Parts := do
  let tag ← ReadM.peekRequired "substring"
  ReadM.lift (parts.add tag (← ReadM.octets))

end Parts

def readSubstrings : ReadM Filter := do
  let _ ← ReadM.sequence
  let name ← ReadM.text
  let parts ← ReadM.components (← ReadM.sequence) Parts.read {}
  return .substrings name parts.initial parts.any parts.final

/-- The components of an extensible match read so far. -/
structure Match where
  rule : Option String := none
  name : Option String := none
  value : Option (List UInt8) := none
  dnAttributes : Bool := false

namespace Match

/-- Reads a component. They come in any order, and of two alike the later one counts. -/
def read (m : Match) : ReadM Match := do
  let tag ← ReadM.peekRequired "filter"
  if tag = ruleTag then return { m with rule := some (← ReadM.text) }
  else if tag = nameTag then return { m with name := some (← ReadM.text) }
  else if tag = valueTag then return { m with value := some (← ReadM.octets) }
  else if tag = dnAttributesTag then return { m with dnAttributes := ← ReadM.boolean }
  else throw (.malformed ("unexpected extensible match component 0x" ++ upperHexByte tag))

/-- The filter, which needs a value, and a rule or an attribute. -/
def toFilter (m : Match) : Except Ber.Error Filter :=
  match m.value with
  | none => .error (.malformed "extensible match without a match value")
  | some value =>
    if m.rule.isNone ∧ m.name.isNone then
      .error (.malformed "extensible match needs a matching rule or an attribute type")
    else .ok (.extensible m.rule m.name value m.dnAttributes)

end Match

def readExtensible : ReadM Filter := do
  ReadM.lift (← ReadM.components (← ReadM.sequence) Match.read {}).toFilter

def readComparison (comparison : Comparison) : ReadM Filter := do
  let _ ← ReadM.sequence
  return .compare comparison (← ReadM.text) (← ReadM.octets)

/-- Reads a filter whose tag is known and that nests no others. -/
def readLeaf (tag : UInt8) : ReadM Filter :=
  match comparisonOfTag? tag with
  | some comparison => readComparison comparison
  | none =>
    if tag = substringsTag then readSubstrings
    else if tag = presentTag then return .present (← ReadM.text)
    else if tag = extensibleTag then readExtensible
    else throw (.malformed ("invalid filter type 0x" ++ upperHexByte tag))

/-- Reads a filter that may nest over the given number of levels, its own included. -/
def readLevels : Nat → ReadM Filter
  | 0 => throw (.malformed s!"filter nested deeper than {maxDepth} levels")
  | levels + 1 => do
    let tag ← ReadM.peekRequired "filter"
    if tag = andTag then return .and (← ReadM.listOf (← ReadM.sequence) (readLevels levels))
    else if tag = orTag then return .or (← ReadM.listOf (← ReadM.sequence) (readLevels levels))
    else if tag = notTag then
      let bounds ← ReadM.sequence
      let filter ← readLevels levels
      if ← ReadM.more bounds then
        throw (.malformed "NOT filter contains more than one component")
      return .not filter
    else readLeaf tag

def read : ReadM Filter := readLevels (maxDepth + 1)

end Ldap.Filter
