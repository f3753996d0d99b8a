import Ldap.Directory.Basic
import Ldap.Entry.Match

/-! Reading the directory: comparison with one entry, and search. -/

namespace Ldap.Directory

def compare (d : Directory) (dn name : String) (value : List UInt8) : Except Failure Bool :=
  match d.get? dn with
  | some e => .ok (e.hasValue name value)
  | none => .error (.noSuchEntry dn (d.closestAncestor dn))

/-- Whether a scope takes in a name of some depth, given the depth of the base. -/
def inScope (scope : Scope) (baseDepth depth : Nat) : Bool :=
  match scope with
  | .base => depth == baseDepth
  | .oneLevel => depth == baseDepth + 1
  | .subtree => true
  | .subordinates => baseDepth < depth

/-- The order of entries in a search: by normalized relative names, the topmost first. An entry comes
before those below it. -/
def searchKey (e : Entry) : List String := (Dn.rdns e.dn).reverse

/-- Whether a list of names is not behind another in the order of a dictionary. -/
def notBehind : List String → List String → Bool
  | [], _ => true
  | _ :: _, [] => false
  | a :: as, b :: bs => if a < b then true else if b < a then false else notBehind as bs

def sortByName (entries : List Entry) : List Entry :=
  ((entries.map fun e => (searchKey e, e)).mergeSort fun a b => notBehind a.1 b.1).map (·.2)

/-- The entries at or below the base of a search. Above all entries there is no entry itself. -/
def candidates (d : Directory) (base : String) : Except Failure (List Entry) := do
  if (Dn.normalize base).isEmpty then return d.store.entries
  let _ ← d.require base
  return d.store.subtree base

/-- The entries in scope that match a filter. The entry of the empty name is found only by itself. -/
def search (d : Directory) (base : String) (scope : Scope) (filter : Filter) :
    Except Failure (List Entry) := do
  let depth := (Dn.split base).length
  if depth = 0 ∧ scope = .base then return [d.rootDse].filter (·.isMatch filter)
  let found ← d.candidates base
  return sortByName (found.filter fun e =>
    inScope scope depth (Dn.split e.dn).length && e.isMatch filter)

/-- Every entry, in the order of a search. -/
def allEntries (d : Directory) : List Entry := sortByName d.store.entries

end Ldap.Directory
