import Ldap.Directory.Search

/-! Identities that clients authenticate as, and their passwords. -/

namespace Ldap.Directory

/-- Whether a name is that of an entry or of a further identity. -/
def hasIdentity (d : Directory) (dn : String) : Bool :=
  (d.credentials.lookup (Dn.normalize dn)).isSome || d.store.contains dn

/-- Whether one of the password attributes of an entry has a value. -/
def hasPassword (d : Directory) (e : Entry) (password : List UInt8) : Bool :=
  d.passwordAttributes.any fun name => (e.values name).any (· == password)

def checkPassword (d : Directory) (dn : String) (password : List UInt8) : Bool :=
  d.credentials.lookup (Dn.normalize dn) == some password
    || (d.store.get? dn).any (d.hasPassword · password)

/-- The name of the only entry with a user identifier. An entry below two of the bases counts
twice. -/
def resolveUser (d : Directory) (user : String) : Except Failure String :=
  let found := (d.baseKeys.flatMap d.store.subtree).filter
    (·.isMatch (Filter.equality "uid" (Ber.utf8Bytes user)))
  match found with
  | [e] => .ok e.dn
  | [] => .error (.noSuchUser user)
  | _ => .error (.ambiguousUser user)

/-- The name behind an authorization identity: a name behind "dn:", or a user identifier, alone or
behind "u:". The anonymous identity is the empty name. -/
def resolveAuthzid (d : Directory) (authzid : String) : Except Failure String :=
  match Text.strip? "dn:".toList authzid.toList with
  | some rest =>
    let dn := String.ofList (Text.trimChars rest)
    if dn.isEmpty || d.hasIdentity dn then .ok dn else .error (.noSuchIdentity authzid)
  | none =>
    let user := ((Text.strip? "u:".toList authzid.toList).map String.ofList).getD authzid
    if user.isEmpty then .ok "" else d.resolveUser user

/-- Replaces the first password attribute of an entry. -/
def setPassword (d : Directory) (dn : String) (password : List UInt8) :
    Except Failure Directory := do
  let e ← d.require dn
  let name := d.passwordAttributes.headD "userPassword"
  return { d with store := d.store.put (e.replaceValues name [password]) }

end Ldap.Directory
