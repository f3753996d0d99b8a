import Ldap.Control.Response
import Ldap.Extended.PasswordModify

/-! The extended operations that a server offers, by object identifier. -/

namespace Ldap

inductive Extension where
  | passwordModify
  | whoAmI
deriving DecidableEq, Repr

namespace Extension

/-- Every extension, in the order of their object identifiers. -/
def all : List Extension := [.passwordModify, .whoAmI]

def oid : Extension → String
  | .passwordModify => PasswordModify.oid
  | .whoAmI => "1.3.6.1.4.1.4203.1.11.3"

def ofOid? (oid : String) : Option Extension := all.find? (·.oid == oid)

/-- The request to change a password; a missing value asks for a new one of one's own. -/
def passwordModifyOf (value : Option (List UInt8)) : Except Failure PasswordModify :=
  match value with
  | none => .ok {}
  | some bytes => (PasswordModify.decode bytes).mapError .passwordModifyValue

/-- The value that an extended request is answered with, and the directory afterwards. -/
def perform (d : Directory) (authenticated : String) (generated : List UInt8)
    (r : ExtendedRequest) : Except Failure (Option (List UInt8) × Directory) := do
  match ofOid? r.oid with
  | none => throw (.extensionNotSupported r.oid)
  | some .whoAmI => return (some (Ber.utf8Bytes (Control.authzid authenticated)), d)
  | some .passwordModify =>
    PasswordModify.perform d authenticated generated (← passwordModifyOf r.value)

/-- The response to an extended request. A failure leaves the directory as it is. -/
def respond (d : Directory) (authenticated : String) (generated : List UInt8)
    (r : ExtendedRequest) : ExtendedResponse × Directory :=
  match perform d authenticated generated r with
  | .ok (value, d) => ({ result := .success, value }, d)
  | .error f => ({ result := f.result }, d)

end Extension

end Ldap
