import Ldap.Directory.Store
import Ldap.Text.Quoted

/-! The directory: its entries, the names below which they lie, the attributes that hold passwords,
further identities with a password of their own, and the entry that describes the server. -/

namespace Ldap

structure Directory where
  store : Store := {}
  /-- The names below which entries are kept, as configured. -/
  bases : List String
  passwordAttributes : List String := ["userPassword"]
  /-- Passwords of identities that need no entry, by normalized name. -/
  credentials : List (String × List UInt8) := []
  /-- The entry of the empty name. -/
  rootDse : Entry := { dn := "" }

namespace Directory

/-- A directory without entries. -/
def ofBases (bases : List String) : Directory := { bases := bases.map Text.trim }

def baseKeys (d : Directory) : List String := d.bases.map Dn.normalize

/-- Sets the password of a further identity. -/
def addCredential (d : Directory) (dn : String) (password : List UInt8) : Directory :=
  let key := Dn.normalize dn
  { d with credentials := d.credentials.filter (·.1 != key) ++ [(key, password)] }

def size (d : Directory) : Nat := d.store.size

def get? (d : Directory) (dn : String) : Option Entry :=
  if (Dn.split dn).isEmpty then some d.rootDse else d.store.get? dn

/-- The name of the first stored entry among the given number of names above a name. -/
def ancestorAmong (s : Store) : Nat → String → String
  | 0, _ => ""
  | steps + 1, dn =>
    match Dn.parent? dn with
    | none => ""
    | some parent =>
      if parent.isEmpty then ""
      else match s.get? parent with
        | some e => e.dn
        | none => ancestorAmong s steps parent

/-- The closest stored entry above a name, or the empty name. -/
def closestAncestor (d : Directory) (dn : String) : String :=
  ancestorAmong d.store (Dn.split dn).length dn

/-- The stored entry of a name, which must be there. -/
def require (d : Directory) (dn : String) : Except Failure Entry :=
  match d.store.get? dn with
  | some e => .ok e
  | none => .error (.noSuchEntry dn (d.closestAncestor dn))

/-- Whether a name lies at or below one of the bases. -/
def covers (d : Directory) (dn : String) : Bool :=
  let key := Dn.normalize dn
  d.baseKeys.any (Dn.isWithin key ·)

def isBase (d : Directory) (dn : String) : Bool :=
  d.baseKeys.contains (Dn.normalize dn)

/-- A summary of the directory for people. -/
def summary (d : Directory) : String :=
  "Directory \x7b base_dns: " ++ Text.quoteList d.bases ++ ", entries: " ++ toString d.size
    ++ ", password_attributes: " ++ Text.quoteList d.passwordAttributes
    ++ ", additional_credentials: " ++ toString d.credentials.length ++ " \x7d"

end Directory

end Ldap
