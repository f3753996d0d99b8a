import Ldap.Ber.Buffer
import Ldap.Filter.Codec
import Ldap.Message.Basic

/-! Messages on the wire. Components that a newer peer appends to a request or a response are passed
over; a message itself must end where its operation and its controls do. -/

namespace Ldap

open Ber (Item ReadM Bounds Element)
open Text (upperHexByte)

/-! ### Bind -/

namespace BindRequest

def simpleTag : UInt8 := 0x80
def saslTag : UInt8 := 0xA3

def components (r : BindRequest) : List Item :=
  [.ofInt32 r.version, .ofText r.name, match r.credentials with
    | .simple password => .octets simpleTag password
    | .sasl mechanism credentials =>
      .constructed saslTag (.ofText mechanism :: (credentials.map Item.ofBytes).toList)]

def readSasl : ReadM Credentials := do
  let bounds ← ReadM.sequence
  let mechanism ← ReadM.text
  let credentials ← if ← ReadM.more bounds then some <$> ReadM.octets else pure none
  ReadM.skipRest bounds
  return .sasl mechanism credentials

/-- Reads credentials. Some clients give a password an unusual tag, so whatever is not the choice of
a mechanism is taken as a password. -/
def readCredentials : ReadM Credentials := do
  if (← ReadM.peek) = some saslTag then readSasl else return .simple (← ReadM.octets)

def read : ReadM BindRequest := do
  let bounds ← ReadM.sequence
  let version ← ReadM.integer
  let name ← ReadM.text
  let credentials ← readCredentials
  ReadM.skipRest bounds
  return ⟨version, name, credentials⟩

end BindRequest

namespace BindResponse

def serverCredentialsTag : UInt8 := 0x87

def components (result : Result) (serverCredentials : Option (List UInt8)) : List Item :=
  result.components ++ (serverCredentials.map (Item.octets serverCredentialsTag)).toList

def read : ReadM Op := do
  let bounds ← ReadM.sequence
  let result ← Result.readComponents bounds
  let serverCredentials ← ReadM.optional bounds serverCredentialsTag ReadM.octets
  ReadM.skipRest bounds
  return .bindResponse result serverCredentials

end BindResponse

/-! ### Search -/

namespace SearchRequest

def components (r : SearchRequest) : List Item :=
  [.ofText r.base, .enumerated r.scope.code, .enumerated r.derefAliases, .ofInt32 r.sizeLimit,
    .ofInt32 r.timeLimit, .ofBool r.typesOnly, r.filter.toItem,
    .sequence (r.attributes.map .ofText)]

def readScope : ReadM Scope := do
  let n ← ReadM.enumerated
  match Scope.ofCode? n with
  | some scope => return scope
  | none => throw (.malformed s!"invalid search scope: {n.toInt}")

def read : ReadM SearchRequest := do
  let bounds ← ReadM.sequence
  let base ← ReadM.text
  let scope ← readScope
  let derefAliases ← ReadM.enumerated
  let sizeLimit ← ReadM.integer
  let timeLimit ← ReadM.integer
  let typesOnly ← ReadM.boolean
  let filter ← Filter.read
  let attributes ← ReadM.listOf (← ReadM.sequence) ReadM.text
  ReadM.skipRest bounds
  return ⟨base, scope, derefAliases, sizeLimit, timeLimit, typesOnly, filter, attributes⟩

end SearchRequest

namespace ResultEntry

def components (e : ResultEntry) : List Item :=
  [.ofText e.dn, Attribute.listItem e.attributes]

def read : ReadM ResultEntry := do
  let bounds ← ReadM.sequence
  let dn ← ReadM.text
  let attributes ← Attribute.readList
  ReadM.skipRest bounds
  return ⟨dn, attributes⟩

end ResultEntry

/-! ### Updates and comparison -/

namespace Change

def toItem (c : Change) : Item :=
  .sequence [.enumerated c.kind.code, c.target.toItem]

def readKind : ReadM ChangeKind := do
  let n ← ReadM.enumerated
  match ChangeKind.ofCode? n with
  | some kind => return kind
  | none => throw (.malformed s!"invalid modification type: {n.toInt}")

def read : ReadM Change := do
  let bounds ← ReadM.sequence
  let kind ← readKind
  let target ← Attribute.read
  ReadM.skipRest bounds
  return ⟨kind, target⟩

end Change

namespace ModifyDnRequest

def newSuperiorTag : UInt8 := 0x80

def components (r : ModifyDnRequest) : List Item :=
  [.ofText r.dn, .ofText r.newRdn, .ofBool r.deleteOldRdn]
    ++ (r.newSuperior.map (Item.text newSuperiorTag)).toList

def read : ReadM ModifyDnRequest := do
  let bounds ← ReadM.sequence
  let dn ← ReadM.text
  let newRdn ← ReadM.text
  let deleteOldRdn ← ReadM.boolean
  let newSuperior ← ReadM.optional bounds newSuperiorTag ReadM.text
  ReadM.skipRest bounds
  return ⟨dn, newRdn, deleteOldRdn, newSuperior⟩

end ModifyDnRequest

namespace Op

def readAdd : ReadM Op := do
  let bounds ← ReadM.sequence
  let dn ← ReadM.text
  let attributes ← Attribute.readList
  ReadM.skipRest bounds
  return .addRequest dn attributes

def readCompare : ReadM Op := do
  let bounds ← ReadM.sequence
  let dn ← ReadM.text
  let assertion ← ReadM.sequence
  let name ← ReadM.text
  let value ← ReadM.octets
  ReadM.skipRest assertion
  ReadM.skipRest bounds
  return .compareRequest dn name value

def readModify : ReadM Op := do
  let bounds ← ReadM.sequence
  let dn ← ReadM.text
  let changes ← ReadM.listOf (← ReadM.sequence) Change.read
  ReadM.skipRest bounds
  return .modifyRequest dn changes

end Op

/-! ### Extended and intermediate -/

namespace ExtendedRequest

def oidTag : UInt8 := 0x80
def valueTag : UInt8 := 0x81

def components (r : ExtendedRequest) : List Item :=
  .text oidTag r.oid :: (r.value.map (Item.octets valueTag)).toList

/-- Reads an extended request. The first component is its object identifier under any tag. -/
def read : ReadM ExtendedRequest := do
  let bounds ← ReadM.sequence
  let oid ← ReadM.text
  let value ← ReadM.optional bounds valueTag ReadM.octets
  ReadM.skipRest bounds
  return ⟨oid, value⟩

end ExtendedRequest

namespace ExtendedResponse

def oidTag : UInt8 := 0x8A
def valueTag : UInt8 := 0x8B

def components (r : ExtendedResponse) : List Item :=
  r.result.components ++ (r.oid.map (Item.text oidTag)).toList
    ++ (r.value.map (Item.octets valueTag)).toList

def read : ReadM ExtendedResponse := do
  let bounds ← ReadM.sequence
  let result ← Result.readComponents bounds
  let oid ← ReadM.optional bounds oidTag ReadM.text
  let value ← ReadM.optional bounds valueTag ReadM.octets
  ReadM.skipRest bounds
  return ⟨result, oid, value⟩

end ExtendedResponse

namespace IntermediateResponse

def oidTag : UInt8 := 0x80
def valueTag : UInt8 := 0x81

def components (oid : Option String) (value : Option (List UInt8)) : List Item :=
  (oid.map (Item.text oidTag)).toList ++ (value.map (Item.octets valueTag)).toList

def read : ReadM Op := do
  let bounds ← ReadM.sequence
  let oid ← ReadM.optional bounds oidTag ReadM.text
  let value ← ReadM.optional bounds valueTag ReadM.octets
  ReadM.skipRest bounds
  return .intermediateResponse oid value

end IntermediateResponse

/-! ### Operations -/

namespace Op

def toItem (op : Op) : Item :=
  match op with
  | .abandonRequest id => .integer op.tag id.toInt64
  | .addRequest dn attributes => .constructed op.tag [.ofText dn, Attribute.listItem attributes]
  | .bindRequest request => .constructed op.tag request.components
  | .bindResponse result serverCredentials =>
    .constructed op.tag (BindResponse.components result serverCredentials)
  | .compareRequest dn name value =>
    .constructed op.tag [.ofText dn, .sequence [.ofText name, .ofBytes value]]
  | .deleteRequest dn => .text op.tag dn
  | .extendedRequest request => .constructed op.tag request.components
  | .extendedResponse response => .constructed op.tag response.components
  | .intermediateResponse oid value =>
    .constructed op.tag (IntermediateResponse.components oid value)
  | .modifyRequest dn changes =>
    .constructed op.tag [.ofText dn, .sequence (changes.map Change.toItem)]
  | .modifyDnRequest request => .constructed op.tag request.components
  | .searchRequest request => .constructed op.tag request.components
  | .searchResultEntry entry => .constructed op.tag entry.components
  | .searchResultReference uris => .constructed op.tag (uris.map .ofText)
  | .addResponse result | .compareResponse result | .deleteResponse result
  | .modifyResponse result | .modifyDnResponse result | .searchResultDone result =>
    .constructed op.tag result.components
  | .unbindRequest => .null op.tag

/-- Reads a response that consists of a result. -/
def readResult : ReadM Result := do
  let bounds ← ReadM.sequence
  let result ← Result.readComponents bounds
  ReadM.skipRest bounds
  return result

/-- Reads the operation that the next tag announces. -/
def read : ReadM Op := do
  let tag ← ReadM.peekRequired "protocol op"
  match tag with
  | 0x50 => return .abandonRequest (← ReadM.integer)
  | 0x68 => readAdd
  | 0x69 => return .addResponse (← readResult)
  | 0x60 => return .bindRequest (← BindRequest.read)
  | 0x61 => BindResponse.read
  | 0x6E => readCompare
  | 0x6F => return .compareResponse (← readResult)
  | 0x4A => return .deleteRequest (← ReadM.text)
  | 0x6B => return .deleteResponse (← readResult)
  | 0x77 => return .extendedRequest (← ExtendedRequest.read)
  | 0x78 => return .extendedResponse (← ExtendedResponse.read)
  | 0x79 => IntermediateResponse.read
  | 0x66 => readModify
  | 0x67 => return .modifyResponse (← readResult)
  | 0x6C => return .modifyDnRequest (← ModifyDnRequest.read)
  | 0x6D => return .modifyDnResponse (← readResult)
  | 0x63 => return .searchRequest (← SearchRequest.read)
  | 0x64 => return .searchResultEntry (← ResultEntry.read)
  | 0x73 => return .searchResultReference (← ReadM.listOf (← ReadM.sequence) ReadM.text)
  | 0x65 => return .searchResultDone (← readResult)
  | 0x42 => ReadM.null; return .unbindRequest
  | _ => throw (.malformed ("unsupported LDAP operation tag: 0x" ++ upperHexByte tag))

end Op

/-! ### Controls -/

namespace Control

/-- The sequence of a control. Criticality is written only if it is set. -/
def toItem (c : Control) : Item :=
  .sequence (.ofText c.oid :: ((if c.critical then [.ofBool true] else [])
    ++ (c.value.map Item.ofBytes).toList))

/-- Reads what follows the object identifier: criticality, and then at most one value. -/
def readComponent (c : Control) : ReadM Control := do
  let tag ← ReadM.peekRequired "control"
  if tag = Ber.booleanTag ∧ c.value.isNone then return { c with critical := ← ReadM.boolean }
  else if tag = Ber.octetStringTag ∧ c.value.isNone then
    return { c with value := some (← ReadM.octets) }
  else throw (.malformed ("unexpected element 0x" ++ upperHexByte tag ++ " in control " ++ c.oid))

def read : ReadM Control := do
  let bounds ← ReadM.sequence
  let oid ← ReadM.text
  ReadM.components bounds readComponent ⟨oid, false, none⟩

end Control

/-! ### Messages -/

namespace Message

def controlsTag : UInt8 := 0xA0

def toItem (m : Message) : Item :=
  .sequence ([.ofInt32 m.id, m.op.toItem] ++ if m.controls.isEmpty then []
    else [.constructed controlsTag (m.controls.map Control.toItem)])

def encode (m : Message) : List UInt8 := m.toItem.toBytes

/-- Reads the controls of a message, if any follow its operation. -/
def readControls (bounds : Bounds) : ReadM (List Control) := do
  if ← ReadM.more bounds then
    let tag ← ReadM.peekRequired "controls"
    if tag = controlsTag then ReadM.listOf (← ReadM.sequence) Control.read
    else throw (.malformed ("unexpected element 0x" ++ upperHexByte tag ++ " after the protocol op"))
  else return []

/-- Reads the inside of a message. -/
def readBody (bounds : Bounds) : ReadM Message := do
  if bounds.tag ≠ Ber.sequenceTag then throw (.unexpectedType Ber.sequenceTag bounds.tag)
  let id ← ReadM.integer
  let op ← Op.read
  let controls ← readControls bounds
  if ← ReadM.more bounds then throw (.malformed "trailing data inside LDAP message")
  return ⟨id, op, controls⟩

/-- Reads the next message, or answers `none` at the end of the stream. -/
def read : ReadM (Option Message) := do
  match ← ReadM.sequence? with
  | none => return none
  | some bounds => return some (← readBody bounds)

/-- Decodes bytes that hold exactly one message. -/
def decode (bytes : List UInt8) : Except Ber.Error Message := do
  let _ ← Element.decode bytes
  match (read.run (Ber.Reader.ofBytes bytes)) with
  | .ok (some m) _ => .ok m
  | .ok none _ => .error (.truncated "message")
  | .error e _ => .error e

end Message

end Ldap
