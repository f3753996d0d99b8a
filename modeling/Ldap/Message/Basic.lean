import Ldap.Attribute
import Ldap.Filter.Basic
import Ldap.Operation
import Ldap.Result
import Ldap.Text.Ascii

/-! The messages of the protocol: an identifier, one of the requests and responses, and controls. -/

namespace Ldap

/-- An extension of a request or a response, named by its object identifier. -/
structure Control where
  oid : String
  critical : Bool
  value : Option (List UInt8)
deriving DecidableEq, Repr

/-- How a bind request authenticates. -/
inductive Credentials where
  | simple (password : List UInt8)
  | sasl (mechanism : String) (credentials : Option (List UInt8))
deriving DecidableEq, Repr

structure BindRequest where
  version : Int32 := 3
  name : String
  credentials : Credentials
deriving DecidableEq, Repr

/-- Which entries a search considers, relative to its base. -/
inductive Scope where
  | base
  | oneLevel
  | subtree
  | subordinates
deriving DecidableEq, Repr

namespace Scope

def all : List Scope := [.base, .oneLevel, .subtree, .subordinates]

def code : Scope → Int32
  | .base => 0
  | .oneLevel => 1
  | .subtree => 2
  | .subordinates => 3

def ofCode? (n : Int32) : Option Scope := all.find? (·.code == n)

end Scope

structure SearchRequest where
  base : String
  scope : Scope
  derefAliases : Int32 := 0
  sizeLimit : Int32 := 0
  timeLimit : Int32 := 0
  typesOnly : Bool := false
  filter : Filter
  attributes : List String := []
deriving DecidableEq, Repr

inductive ChangeKind where
  | add
  | delete
  | replace
  | increment
deriving DecidableEq, Repr

namespace ChangeKind

def all : List ChangeKind := [.add, .delete, .replace, .increment]

def code : ChangeKind → Int32
  | .add => 0
  | .delete => 1
  | .replace => 2
  | .increment => 3

def ofCode? (n : Int32) : Option ChangeKind := all.find? (·.code == n)

end ChangeKind

/-- One change of a modify request. -/
structure Change where
  kind : ChangeKind
  target : Attribute
deriving DecidableEq, Repr

structure ModifyDnRequest where
  dn : String
  newRdn : String
  deleteOldRdn : Bool
  newSuperior : Option String := none
deriving DecidableEq, Repr

structure ExtendedRequest where
  oid : String
  value : Option (List UInt8) := none
deriving DecidableEq, Repr

structure ExtendedResponse where
  result : Result
  oid : Option String := none
  value : Option (List UInt8) := none
deriving DecidableEq, Repr

/-- An entry as a search returns it. -/
structure ResultEntry where
  dn : String
  attributes : List Attribute
deriving DecidableEq, Repr

namespace ResultEntry

/-- The attribute of a name, in any ASCII case. -/
def attribute? (e : ResultEntry) (name : String) : Option Attribute :=
  e.attributes.find? fun a => Text.sameText a.name name

end ResultEntry

inductive Op where
  | abandonRequest (id : Int32)
  | addRequest (dn : String) (attributes : List Attribute)
  | addResponse (result : Result)
  | bindRequest (request : BindRequest)
  | bindResponse (result : Result) (serverCredentials : Option (List UInt8))
  | compareRequest (dn name : String) (value : List UInt8)
  | compareResponse (result : Result)
  | deleteRequest (dn : String)
  | deleteResponse (result : Result)
  | extendedRequest (request : ExtendedRequest)
  | extendedResponse (response : ExtendedResponse)
  | intermediateResponse (oid : Option String) (value : Option (List UInt8))
  | modifyRequest (dn : String) (changes : List Change)
  | modifyResponse (result : Result)
  | modifyDnRequest (request : ModifyDnRequest)
  | modifyDnResponse (result : Result)
  | searchRequest (request : SearchRequest)
  | searchResultEntry (entry : ResultEntry)
  | searchResultReference (uris : List String)
  | searchResultDone (result : Result)
  | unbindRequest
deriving DecidableEq, Repr

namespace Op

def tag : Op → UInt8
  | .abandonRequest _ => 0x50
  | .addRequest .. => 0x68
  | .addResponse _ => 0x69
  | .bindRequest _ => 0x60
  | .bindResponse .. => 0x61
  | .compareRequest .. => 0x6E
  | .compareResponse _ => 0x6F
  | .deleteRequest _ => 0x4A
  | .deleteResponse _ => 0x6B
  | .extendedRequest _ => 0x77
  | .extendedResponse _ => 0x78
  | .intermediateResponse .. => 0x79
  | .modifyRequest .. => 0x66
  | .modifyResponse _ => 0x67
  | .modifyDnRequest _ => 0x6C
  | .modifyDnResponse _ => 0x6D
  | .searchRequest _ => 0x63
  | .searchResultEntry _ => 0x64
  | .searchResultReference _ => 0x73
  | .searchResultDone _ => 0x65
  | .unbindRequest => 0x42

/-- The operation that a request asks for; a response has none. -/
def operation? : Op → Option Operation
  | .abandonRequest _ => some .abandon
  | .addRequest .. => some .add
  | .bindRequest _ => some .bind
  | .compareRequest .. => some .compare
  | .deleteRequest _ => some .delete
  | .extendedRequest _ => some .extended
  | .modifyRequest .. => some .modify
  | .modifyDnRequest _ => some .modifyDn
  | .searchRequest _ => some .search
  | .unbindRequest => some .unbind
  | _ => none

/-- The result of a response that carries one. -/
def result? : Op → Option Result
  | .addResponse result | .bindResponse result _ | .compareResponse result
  | .deleteResponse result | .modifyResponse result | .modifyDnResponse result
  | .searchResultDone result => some result
  | .extendedResponse response => some response.result
  | _ => none

end Op

structure Message where
  id : Int32
  op : Op
  controls : List Control := []
deriving DecidableEq, Repr

end Ldap
