import Ldap.Ber.Buffer
import Ldap.Filter.Codec
import Ldap.Message.Basic

/-! The request controls that a server understands: their object identifiers, the operations they
apply to, and their values on the wire. -/

namespace Ldap

open Ber (Item ReadM Reader)

/-- A key of a sort request. -/
structure SortKey where
  name : String
  rule : Option String := none
  reverse : Bool := false
deriving DecidableEq, Repr

/-- Where the window of a list view lies: around an offset into the list, of which the client gives
the size it believes in, or around the first entry not below a value. -/
inductive ViewTarget where
  | byOffset (offset contentCount : Int32)
  | greaterOrEqual (value : List UInt8)
deriving DecidableEq, Repr

/-- A window of a sorted list, with the number of entries wanted before and after its target. -/
structure ListView where
  before : Int32
  after : Int32
  target : ViewTarget
  context : Option (List UInt8) := none
deriving DecidableEq, Repr

inductive ControlKind where
  | manageDsaIt
  | subtreeDelete
  | proxiedAuthorizationV1
  | proxiedAuthorizationV2
  | pagedResults
  | sort
  | listView
  | subentries
  | subentriesVisibility
  | postRead
  | preRead
  | authorizationIdentity
  | assertion
  | permissiveModify
  | dontUseCopy
  | noOp
  /-- Marks operations that the server itself issues. -/
  | internalOperation
deriving DecidableEq, Repr

namespace ControlKind

/-- Every kind, in the order in which a server lists them. -/
def all : List ControlKind :=
  [.manageDsaIt, .subtreeDelete, .proxiedAuthorizationV1, .proxiedAuthorizationV2, .pagedResults,
    .sort, .listView, .subentries, .subentriesVisibility, .postRead, .preRead,
    .authorizationIdentity, .assertion, .permissiveModify, .dontUseCopy, .noOp, .internalOperation]

def oid : ControlKind → String
  | .manageDsaIt => "2.16.840.1.113730.3.4.2"
  | .subtreeDelete => "1.2.840.113556.1.4.805"
  | .proxiedAuthorizationV1 => "2.16.840.1.113730.3.4.12"
  | .proxiedAuthorizationV2 => "2.16.840.1.113730.3.4.18"
  | .pagedResults => "1.2.840.113556.1.4.319"
  | .sort => "1.2.840.113556.1.4.473"
  | .listView => "2.16.840.1.113730.3.4.9"
  | .subentries => "1.3.6.1.4.1.7628.5.101.1"
  | .subentriesVisibility => "1.3.6.1.4.1.4203.1.10.1"
  | .postRead => "1.3.6.1.1.13.2"
  | .preRead => "1.3.6.1.1.13.1"
  | .authorizationIdentity => "2.16.840.1.113730.3.4.16"
  | .assertion => "1.3.6.1.1.12"
  | .permissiveModify => "1.2.840.113556.1.4.1413"
  | .dontUseCopy => "1.3.6.1.1.22"
  | .noOp => "1.3.6.1.4.1.4203.1.10.2"
  | .internalOperation => "1.3.6.1.4.1.30221.2.5.18"

def ofOid? (oid : String) : Option ControlKind := all.find? (·.oid == oid)

/-- The operations that act on one entry or on those found from it. -/
def entryOperations : List Operation := [.add, .compare, .delete, .modify, .modifyDn, .search]

/-- The operations that a kind of control applies to. -/
def operations : ControlKind → List Operation
  | .manageDsaIt | .proxiedAuthorizationV1 | .proxiedAuthorizationV2 | .assertion => entryOperations
  | .subtreeDelete => [.delete]
  | .pagedResults | .sort | .listView | .subentries | .subentriesVisibility => [.search]
  | .postRead => [.add, .modify, .modifyDn]
  | .preRead => [.delete, .modify, .modifyDn]
  | .authorizationIdentity => [.bind]
  | .permissiveModify => [.modify]
  | .dontUseCopy => [.compare, .search]
  | .noOp => [.add, .delete, .modify, .modifyDn]
  | .internalOperation => Operation.all

end ControlKind

/-- A request control with its decoded value. -/
inductive RequestControl where
  | manageDsaIt
  | subtreeDelete
  | proxiedAuthorizationV1 (dn : String)
  | proxiedAuthorizationV2 (authzid : String)
  | pagedResults (size : Int32) (cookie : List UInt8)
  | sort (keys : List SortKey)
  | listView (view : ListView)
  | subentries
  | subentriesVisibility (visible : Bool)
  | postRead (attributes : List String)
  | preRead (attributes : List String)
  | authorizationIdentity
  | assertion (filter : Filter)
  | permissiveModify
  | dontUseCopy
  | noOp
  | internalOperation
deriving DecidableEq, Repr

/-! ### Writing -/

namespace SortKey

def ruleTag : UInt8 := 0x80
def reverseTag : UInt8 := 0x81

def toItem (k : SortKey) : Item :=
  .sequence (.ofText k.name :: ((k.rule.map (Item.text ruleTag)).toList
    ++ if k.reverse then [.boolean reverseTag true] else []))

end SortKey

namespace ListView

def byOffsetTag : UInt8 := 0xA0
def greaterOrEqualTag : UInt8 := 0x81

def targetItem : ViewTarget → Item
  | .byOffset offset contentCount =>
    .constructed byOffsetTag [.ofInt32 offset, .ofInt32 contentCount]
  | .greaterOrEqual value => .octets greaterOrEqualTag value

def toItem (v : ListView) : Item :=
  .sequence ([.ofInt32 v.before, .ofInt32 v.after, targetItem v.target]
    ++ (v.context.map Item.ofBytes).toList)

end ListView

namespace RequestControl

def kind : RequestControl → ControlKind
  | .manageDsaIt => .manageDsaIt
  | .subtreeDelete => .subtreeDelete
  | .proxiedAuthorizationV1 _ => .proxiedAuthorizationV1
  | .proxiedAuthorizationV2 _ => .proxiedAuthorizationV2
  | .pagedResults .. => .pagedResults
  | .sort _ => .sort
  | .listView _ => .listView
  | .subentries => .subentries
  | .subentriesVisibility _ => .subentriesVisibility
  | .postRead _ => .postRead
  | .preRead _ => .preRead
  | .authorizationIdentity => .authorizationIdentity
  | .assertion _ => .assertion
  | .permissiveModify => .permissiveModify
  | .dontUseCopy => .dontUseCopy
  | .noOp => .noOp
  | .internalOperation => .internalOperation

def oid (r : RequestControl) : String := r.kind.oid

/-- The value that goes with a control, for the kinds that have one. -/
def value? : RequestControl → Option (List UInt8)
  | .proxiedAuthorizationV1 dn => some (Item.sequence [.ofText dn]).toBytes
  | .proxiedAuthorizationV2 authzid => some (Ber.utf8Bytes authzid)
  | .pagedResults size cookie => some (Item.sequence [.ofInt32 size, .ofBytes cookie]).toBytes
  | .sort keys => some (Item.sequence (keys.map SortKey.toItem)).toBytes
  | .listView view => some view.toItem.toBytes
  | .subentriesVisibility visible => some (Item.ofBool visible).toBytes
  | .postRead attributes | .preRead attributes =>
    some (Item.sequence (attributes.map .ofText)).toBytes
  | .assertion filter => some filter.toItem.toBytes
  | _ => none

/-- The control as a client sends it. -/
def toControl (r : RequestControl) (critical : Bool) : Control :=
  ⟨r.oid, critical, r.value?⟩

end RequestControl

/-! ### Reading -/

namespace SortKey

/-- Reads what may follow the attribute of a key. -/
def readComponent (k : SortKey) : ReadM SortKey := do
  let tag ← ReadM.peek
  if tag = some ruleTag then return { k with rule := some (← ReadM.text) }
  else if tag = some reverseTag then return { k with reverse := ← ReadM.boolean }
  else throw (.malformed "invalid sort key element")

def read : ReadM SortKey := do
  let bounds ← ReadM.sequence
  let name ← ReadM.text
  ReadM.components bounds readComponent { name }

def readList : ReadM (List SortKey) := do
  let keys ← ReadM.listOf (← ReadM.sequence) read
  if keys.isEmpty then throw (.malformed "sort request has no sort keys")
  return keys

end SortKey

namespace ListView

def readTarget : ReadM ViewTarget := do
  let tag ← ReadM.peek
  if tag = some byOffsetTag then
    let _ ← ReadM.sequence
    return .byOffset (← ReadM.integer) (← ReadM.integer)
  else if tag = some greaterOrEqualTag then return .greaterOrEqual (← ReadM.octets)
  else throw (.malformed "invalid virtual list view target")

def read : ReadM ListView := do
  let bounds ← ReadM.sequence
  let before ← ReadM.integer
  let after ← ReadM.integer
  let target ← readTarget
  let context ← if ← ReadM.more bounds then some <$> ReadM.octets else pure none
  return ⟨before, after, target, context⟩

end ListView

namespace Control

def noValue (c : Control) (decoded : RequestControl) : Except Ber.Error RequestControl :=
  if c.value.isNone then .ok decoded else .error (.malformed "control must not have a value")

def requiredValue (c : Control) : Except Ber.Error (List UInt8) :=
  match c.value with
  | some value => .ok value
  | none => .error (.malformed "control requires a value")

/-- Reads an item after which the input must end. -/
def readOnly {α : Type} (item : ReadM α) : ReadM α := do
  let a ← item
  match ← ReadM.element? with
  | none => return a
  | some _ => throw (.malformed "trailing data in control value")

/-- Decodes the value of a control. -/
def decodeValue {α : Type} (c : Control) (item : ReadM α) : Except Ber.Error α := do
  let value ← c.requiredValue
  match (readOnly item).run (Reader.ofBytes value) with
  | .ok a _ => .ok a
  | .error e _ => .error e

def readName : ReadM String := do
  let _ ← ReadM.sequence
  ReadM.text

def readPage : ReadM RequestControl := do
  let _ ← ReadM.sequence
  return .pagedResults (← ReadM.integer) (← ReadM.octets)

def readNames : ReadM (List String) := do
  ReadM.listOf (← ReadM.sequence) ReadM.text

/-- Decodes a control of a known kind. -/
def decode (kind : ControlKind) (c : Control) : Except Ber.Error RequestControl :=
  match kind with
  | .manageDsaIt => c.noValue .manageDsaIt
  | .subtreeDelete => c.noValue .subtreeDelete
  | .proxiedAuthorizationV1 => .proxiedAuthorizationV1 <$> c.decodeValue readName
  | .proxiedAuthorizationV2 => do
    match Ber.utf8Text? (← c.requiredValue) with
    | some authzid => .ok (.proxiedAuthorizationV2 authzid)
    | none => .error .invalidUtf8
  | .pagedResults => c.decodeValue readPage
  | .sort => .sort <$> c.decodeValue SortKey.readList
  | .listView => .listView <$> c.decodeValue ListView.read
  | .subentries => c.noValue .subentries
  | .subentriesVisibility => .subentriesVisibility <$> c.decodeValue ReadM.boolean
  | .postRead => .postRead <$> c.decodeValue readNames
  | .preRead => .preRead <$> c.decodeValue readNames
  | .authorizationIdentity => c.noValue .authorizationIdentity
  | .assertion => .assertion <$> c.decodeValue Filter.read
  | .permissiveModify => c.noValue .permissiveModify
  | .dontUseCopy => c.noValue .dontUseCopy
  | .noOp => c.noValue .noOp
  | .internalOperation => .ok .internalOperation

end Control

end Ldap
