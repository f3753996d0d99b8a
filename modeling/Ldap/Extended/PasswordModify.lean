import Ldap.Directory.Identity
import Ldap.Ber.Buffer

/-! The extended operation that changes a password. It names the identity, the old password and the
new one, each of which may be left out: the identity is then the authenticated one, and the new
password is generated. -/

namespace Ldap

open Ber (Item ReadM Reader)

structure PasswordModify where
  identity : Option String := none
  oldPassword : Option (List UInt8) := none
  newPassword : Option (List UInt8) := none
deriving DecidableEq, Repr

namespace PasswordModify

def oid : String := "1.3.6.1.4.1.4203.1.11.1"

def identityTag : UInt8 := 0x80
def oldPasswordTag : UInt8 := 0x81
def newPasswordTag : UInt8 := 0x82
def generatedTag : UInt8 := 0x80

/-! ### The request on the wire -/

def encode (r : PasswordModify) : List UInt8 :=
  (Item.sequence ((r.identity.map (Item.text identityTag)).toList
    ++ (r.oldPassword.map (Item.octets oldPasswordTag)).toList
    ++ (r.newPassword.map (Item.octets newPasswordTag)).toList)).toBytes

/-- A tag that may be missing, as it is shown in an error. -/
def showTag : Option UInt8 → String
  | some tag => "Some(" ++ Text.hexByte tag ++ ")"
  | none => "None"

/-- Reads a component. They come in any order, and of two alike the later one counts. -/
def readComponent (r : PasswordModify) : ReadM PasswordModify := do
  let tag ← ReadM.peek
  if tag = some identityTag then return { r with identity := some (← ReadM.text) }
  else if tag = some oldPasswordTag then return { r with oldPassword := some (← ReadM.octets) }
  else if tag = some newPasswordTag then return { r with newPassword := some (← ReadM.octets) }
  else throw (.malformed
    ("unexpected element type " ++ showTag tag ++ " in password modify request"))

def read : ReadM PasswordModify := do
  ReadM.components (← ReadM.sequence) readComponent {}

def decode (value : List UInt8) : Except Ber.Error PasswordModify :=
  match read.run (Reader.ofBytes value) with
  | .ok r _ => .ok r
  | .error e _ => .error e

/-- The value of a response that returns a generated password. -/
def generatedValue (password : List UInt8) : List UInt8 :=
  (Item.sequence [.octets generatedTag password]).toBytes

/-! ### The operation -/

/-- Whether an identity is given in the form of an authorization identity. -/
def isAuthzid (identity : String) : Bool :=
  "dn:".toList.isPrefixOf identity.toList || "u:".toList.isPrefixOf identity.toList

/-- The name whose password is to be changed. -/
def target (d : Directory) (authenticated : String) (identity : Option String) :
    Except Failure String :=
  match identity with
  | none => if authenticated.isEmpty then .error .noTarget else .ok authenticated
  | some identity =>
    if isAuthzid identity then
      match d.resolveAuthzid identity with
      | .error cause => .error (.targetRefused cause)
      | .ok dn => if dn.isEmpty then .error .anonymousTarget else .ok dn
    else .ok identity

/-- Who knows the old password may change it, and without it only the identity itself. -/
def checkAllowed (d : Directory) (authenticated dn : String) (oldPassword : Option (List UInt8)) :
    Except Failure Unit :=
  match oldPassword with
  | some old =>
    if d.checkPassword dn old then .ok () else .error (.authentication .invalidCredentials)
  | none =>
    if authenticated.isEmpty then .error .anonymousChange
    else if Dn.normalize authenticated ≠ Dn.normalize dn then .error .othersPassword
    else .ok ()

/-- Changes a password. The value answered holds the password if it is the generated one. -/
def perform (d : Directory) (authenticated : String) (generated : List UInt8) (r : PasswordModify) :
    Except Failure (Option (List UInt8) × Directory) := do
  let dn ← target d authenticated r.identity
  if (d.get? dn).isNone then throw (.noSuchEntry dn "")
  checkAllowed d authenticated dn r.oldPassword
  match r.newPassword with
  | some password => return (none, ← d.setPassword dn password)
  | none => return (some (generatedValue generated), ← d.setPassword dn generated)

end PasswordModify

end Ldap
