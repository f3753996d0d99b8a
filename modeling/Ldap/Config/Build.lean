import Ldap.Config.Check
import Ldap.Directory.Update
import Ldap.Service.Basic

/-! The service that a configuration describes. -/

namespace Ldap.Config

def EntrySpec.toEntry (e : EntrySpec) : Entry :=
  Entry.ofAttributes e.dn (e.attributes.map fun (name, values) =>
    Attribute.ofTexts name values.toList)

def settings (c : Config) : Settings :=
  let standard : Settings := {}
  { allowed := match c.allowed with
      | some listed => Operation.all.filter (listed.contains ·)
      | none => standard.allowed
    authenticationRequired := Operation.all.filter (c.authenticationRequired.contains ·)
    maxSizeLimit := c.maxSizeLimit
    vendorName := c.vendorName.getD standard.vendorName
    vendorVersion := c.vendorVersion.getD standard.vendorVersion }

/-- The directory without its entries. -/
def emptyDirectory (c : Config) : Directory :=
  let d := { Directory.ofBases c.baseDns with passwordAttributes := c.passwordAttributes }
  c.credentials.foldl (fun d credential =>
    d.addCredential credential.dn (Ber.utf8Bytes credential.password)) d

/-- The entries in the order of their depth, so that parents come before those below them. -/
def entriesByDepth (c : Config) : List EntrySpec :=
  ((c.entries.map fun e => ((Dn.split e.dn).length, e)).mergeSort fun a b =>
    decide (a.1 ≤ b.1)).map (·.2)

def loadEntry (d : Directory) (e : EntrySpec) : Except ConfigError Directory :=
  match d.add e.toEntry false with
  | .ok (_, d) => .ok d
  | .error cause => .error (.entry e.dn cause)

/-- The directory with the configured entries. -/
def directory (c : Config) : Except ConfigError Directory :=
  c.entriesByDepth.foldlM loadEntry c.emptyDirectory

/-- The service over that directory. -/
def service (c : Config) : Except ConfigError Service := do
  let d ← c.directory
  return Service.start d (.ofNames c.saslMechanisms c.allowAnonymousPlain) c.settings

end Ldap.Config
