import Ldap.Ber.Item
import Ldap.Ber.Reader

/-! An attribute, a name with a list of values, as messages carry it and entries hold it. -/

namespace Ldap

open Ber (Item ReadM)

structure Attribute where
  name : String
  values : List (List UInt8)
deriving DecidableEq, Repr

namespace Attribute

/-- An attribute whose values are texts. -/
def ofTexts (name : String) (values : List String) : Attribute :=
  ⟨name, values.map Ber.utf8Bytes⟩

def toItem (a : Attribute) : Item :=
  .sequence [.ofText a.name, .set (a.values.map .ofBytes)]

def read : ReadM Attribute := do
  let bounds ← ReadM.sequence
  let name ← ReadM.text
  let values ← ReadM.listOf (← ReadM.sequence) ReadM.octets
  ReadM.skipRest bounds
  return ⟨name, values⟩

def listItem (attributes : List Attribute) : Item :=
  .sequence (attributes.map toItem)

def readList : ReadM (List Attribute) := do
  ReadM.listOf (← ReadM.sequence) read

end Attribute

end Ldap
