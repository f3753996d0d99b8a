import Ldap.Control.Response
import Ldap.Directory.Update
import Ldap.Extended.Basic
import Ldap.Metrics.Basic
import Ldap.Sasl.Plain

/-! The service that clients talk to: a directory, the mechanisms for authentication, what is allowed,
and the counts of what was done. What belongs to one client is its connection. -/

namespace Ldap

structure Settings where
  allowed : List Operation := Operation.all
  /-- The operations that anonymous clients are refused. -/
  authenticationRequired : List Operation := []
  /-- The most entries that a search returns, or zero for no limit. -/
  maxSizeLimit : Nat := 0
  vendorName : String := "ldap-inmem-server"
  vendorVersion : String := "0.1.0"
deriving DecidableEq, Repr

/-- What is known of a client between its requests. -/
structure Connection where
  /-- The name the client is authenticated as, empty for an anonymous one. -/
  authenticatedDn : String := ""
  /-- The mechanism of the last bind, if it used one. -/
  mechanism : Option String := none
  sasl : SaslState := {}
deriving DecidableEq, Repr

namespace Connection

def isAuthenticated (c : Connection) : Bool := !c.authenticatedDn.isEmpty

/-- The connection before anyone is authenticated again. -/
def anonymous (c : Connection) : Connection := { c with authenticatedDn := "" }

end Connection

structure Service where
  directory : Directory
  mechanisms : Mechanisms
  settings : Settings
  metrics : Metrics := {}
  /-- The passwords that may be generated from now on, one for each request. -/
  passwords : Nat → List UInt8 := fun _ => List.replicate 16 0x2A

namespace Service

/-- The password that the next request sets where one is to be generated. -/
def generatedPassword (s : Service) : List UInt8 := s.passwords 0

/-- The service behind a request, which took a password of its own. -/
def redraw (s : Service) : Service := { s with passwords := fun i => s.passwords (i + 1) }

/-- The entry that tells what the server offers. -/
def describe (d : Directory) (mechanisms : Mechanisms) (settings : Settings) : Entry :=
  Entry.ofAttributes "" [
    .ofTexts "objectClass" ["top", "ds-root-dse"],
    .ofTexts "namingContexts" d.bases,
    .ofTexts "supportedControl" (ControlKind.all.map (·.oid)),
    .ofTexts "supportedExtension" (Extension.all.map (·.oid)),
    .ofTexts "supportedSASLMechanisms" mechanisms.names,
    .ofTexts "supportedLDAPVersion" ["3"],
    .ofTexts "vendorName" [settings.vendorName],
    .ofTexts "vendorVersion" [settings.vendorVersion]]

/-- A service over a directory, which then has an entry that describes it. -/
def start (d : Directory) (mechanisms : Mechanisms) (settings : Settings) : Service :=
  { directory := { d with rootDse := describe d mechanisms settings }, mechanisms, settings }

end Service

/-- A response to be sent under the identifier of its request. -/
structure Reply where
  op : Op
  controls : List Control := []
deriving DecidableEq, Repr

end Ldap
