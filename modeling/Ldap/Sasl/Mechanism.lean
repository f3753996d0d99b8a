import Ldap.Directory.Identity
import Ldap.Sasl.State

/-! Mechanisms that a bind may authenticate by, and the registry of those that a server offers. -/

namespace Ldap

/-- What a bind arrived at: the name of the identity, empty for the anonymous one. -/
structure BindOutcome where
  dn : String
  serverCredentials : Option (List UInt8) := none
deriving DecidableEq, Repr

/-- A mechanism: how it judges the name and the credentials of a bind, and what it leaves for the
next one, which it is given if it works in several stages. -/
structure Mechanism where
  name : String
  multiStage : Bool := false
  bind : Directory → String → Option (List UInt8) → SaslState →
    Except AuthError BindOutcome × SaslState

/-- Mechanisms in the order of their names, one for each name. -/
structure Mechanisms where
  list : List Mechanism := []

namespace Mechanisms

def insertInto (m : Mechanism) : List Mechanism → List Mechanism
  | [] => [m]
  | other :: rest =>
    if m.name = other.name then m :: rest
    else if m.name < other.name then m :: other :: rest
    else other :: insertInto m rest

/-- Offers a mechanism, in place of one of the same name. -/
def register (ms : Mechanisms) (m : Mechanism) : Mechanisms := ⟨insertInto m ms.list⟩

def get? (ms : Mechanisms) (name : String) : Option Mechanism := ms.list.find? (·.name == name)

def names (ms : Mechanisms) : List String := ms.list.map (·.name)

end Mechanisms

end Ldap
