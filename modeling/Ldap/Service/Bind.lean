import Ldap.Service.Gate

/-! Binds. Whatever its outcome, a bind first takes away the identity that the connection had. -/

namespace Ldap.Service

/-- Authenticates by name and password. Neither stands for the anonymous identity, and a name alone
is refused. -/
def simpleBind (d : Directory) (name : String) (password : List UInt8) : Except Failure String :=
  if (Text.trim name).isEmpty then
    if password.isEmpty then .ok "" else .error (.authentication .invalidCredentials)
  else if password.isEmpty then .error .passwordMissing
  else if d.checkPassword name password then .ok name
  else .error (.authentication .invalidCredentials)

/-- Authenticates by a mechanism. Its state survives from the bind before only if it works in stages
and was the mechanism of that bind. -/
def saslBind (s : Service) (c : Connection) (name mechanism : String)
    (credentials : Option (List UInt8)) : Except Failure BindOutcome × Connection :=
  match s.mechanisms.get? mechanism with
  | none => (.error (.mechanismNotSupported mechanism), c)
  | some m =>
    let kept := m.multiStage && c.mechanism == some mechanism
    let (outcome, sasl) := m.bind s.directory name credentials (if kept then c.sasl else {})
    (outcome.mapError .authentication, { c with mechanism := some mechanism, sasl })

/-- The identity that a bind arrives at, and what it leaves of the connection. -/
def authenticate (s : Service) (c : Connection) (r : BindRequest) :
    Except Failure BindOutcome × Connection :=
  if r.version ≠ 3 then (.error (.protocolVersion r.version), c)
  else match r.credentials with
    | .simple password =>
      ((simpleBind s.directory r.name password).map fun dn => { dn },
        { c with mechanism := none, sasl := {} })
    | .sasl mechanism credentials => s.saslBind c r.name mechanism credentials

def bind (s : Service) (c : Connection) (r : BindRequest) (a : Admitted) :
    Except Failure Reply × Connection :=
  match s.authenticate c.anonymous r with
  | (.error f, c) => (.error f, c)
  | (.ok outcome, c) =>
    let controls :=
      if a.contains .authorizationIdentity then [Control.authorizationIdentity outcome.dn] else []
    (.ok ⟨.bindResponse .success outcome.serverCredentials, controls⟩,
      { c with authenticatedDn := outcome.dn })

end Ldap.Service
