import Ldap.Sasl.Mechanism

/-! The mechanism PLAIN. Its credentials are an identity to act as, an identity to authenticate as and
a password, with a null byte between them. -/

namespace Ldap.Plain

def name : String := "PLAIN"

structure Credentials where
  /-- The identity to act as, if it is not the authenticated one. -/
  authzid : Option String
  authcid : String
  password : List UInt8
deriving DecidableEq, Repr

def identity (bytes : List UInt8) : Except AuthError String :=
  match Ber.utf8Text? bytes with
  | some s => .ok s
  | none => .error (.malformedCredentials "PLAIN identities must be valid UTF-8")

/-- Splits credentials at their first two null bytes. -/
def parse (bytes : List UInt8) : Except AuthError Credentials :=
  match bytes.span (· != 0) with
  | (authzid, _ :: behind) =>
    match behind.span (· != 0) with
    | (authcid, _ :: password) => do
      let authzid ← if authzid.isEmpty then pure none else some <$> identity authzid
      return ⟨authzid, ← identity authcid, password⟩
    | _ => missing
  | _ => missing
where
  missing : Except AuthError Credentials :=
    .error (.malformedCredentials "PLAIN credentials must contain two NUL separators")

/-- Resolves an identity without telling why it fails. -/
def resolve (d : Directory) (authzid : String) : Except AuthError String :=
  (d.resolveAuthzid authzid).mapError fun _ => .invalidCredentials

/-- Authenticates without an identity, if that is allowed. -/
def bindAnonymous (allowAnonymous : Bool) (c : Credentials) : Except AuthError BindOutcome :=
  if allowAnonymous && c.password.isEmpty && c.authzid.isNone then .ok { dn := "" }
  else .error .invalidCredentials

/-- Authenticates by password, and then takes the identity to act as, whoever that is. -/
def bindIdentity (d : Directory) (dn : String) (c : Credentials) : Except AuthError BindOutcome :=
  if c.password.isEmpty || !d.checkPassword dn c.password then .error .invalidCredentials
  else match c.authzid with
    | none => .ok { dn }
    | some authzid => (resolve d authzid).map fun dn => { dn }

def bind (allowAnonymous : Bool) (d : Directory) (credentials : Option (List UInt8)) :
    Except AuthError BindOutcome := do
  match credentials with
  | none => throw .noCredentials
  | some bytes =>
    let c ← parse bytes
    let dn ← resolve d c.authcid
    if dn.isEmpty then bindAnonymous allowAnonymous c else bindIdentity d dn c

def mechanism (allowAnonymous : Bool) : Mechanism where
  name := name
  bind d _ credentials state := (bind allowAnonymous d credentials, state)

/-- Whether a name, in any ASCII case, is that of the mechanism. -/
def isNamed (s : String) : Bool := Text.sameText s name

end Ldap.Plain

namespace Ldap.Mechanisms

/-- The built-in mechanisms among the given names. -/
def ofNames (names : List String) (allowAnonymous : Bool) : Mechanisms :=
  (names.filter Plain.isNamed).foldl (fun ms _ => ms.register (Plain.mechanism allowAnonymous)) {}

end Ldap.Mechanisms
