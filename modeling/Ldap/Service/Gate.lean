import Ldap.Entry.Match
import Ldap.Service.Basic

/-! What a request has to pass before it is carried out. -/

namespace Ldap.Service

/-- Refuses an operation that the settings leave out, and one that calls for authentication. A bind is
open to all, and so are the requests that have no response. -/
def checkOperation (s : Settings) (c : Connection) (operation : Operation) : Except Failure Unit :=
  if operation ≠ .unbind ∧ !s.allowed.contains operation then .error (.operationNotAllowed operation)
  else if !([Operation.bind, .unbind, .abandon].contains operation) && !c.isAuthenticated
      && s.authenticationRequired.contains operation then
    .error (.authenticationRequired operation)
  else .ok ()

/-- Refuses to act for an identity that does not exist. -/
def checkProxied (d : Directory) (a : Admitted) : Except Failure Unit := do
  match a.get? ControlKind.proxiedAuthorizationV1.oid with
  | some (.proxiedAuthorizationV1 dn) =>
    if !dn.isEmpty && !d.hasIdentity dn then throw (.proxyIdentity dn)
  | _ => pure ()
  match a.get? ControlKind.proxiedAuthorizationV2.oid with
  | some (.proxiedAuthorizationV2 authzid) =>
    let _ ← (d.resolveAuthzid authzid).mapError .proxyRefused
  | _ => pure ()

/-- Admits a request, with the controls that take effect. -/
def gate (s : Service) (c : Connection) (operation : Operation) (controls : List Control) :
    Except Failure Admitted := do
  checkOperation s.settings c operation
  let admitted ← (Admitted.ofControls operation controls).mapError .admission
  checkProxied s.directory admitted
  return admitted

/-- Refuses an entry that does not match the filter asserted of it. -/
def checkAssertion (a : Admitted) (e : Entry) : Except Failure Unit :=
  match a.assertion? with
  | some filter => if e.isMatch filter then .ok () else .error (.assertionFailed e.dn filter)
  | none => .ok ()

/-- The entry of a name, which may be the one that describes the server. -/
def existing (d : Directory) (dn : String) : Except Failure Entry :=
  match d.get? dn with
  | some e => .ok e
  | none => .error (.noSuchEntry dn "")

end Ldap.Service
