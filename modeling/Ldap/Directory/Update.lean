import Ldap.Directory.Basic

/-! Updates of the directory. Each checks everything before it changes anything, and answers the
entry or entries it is about with the directory afterwards. With `noOp` the checks are made and
nothing is changed. A renaming may break off while it moves entries; then there is no answer. -/

namespace Ldap.Directory

/-- The directory with other entries, or itself if nothing is to be changed. -/
def commit (d : Directory) (noOp : Bool) (store : Store) : Directory :=
  if noOp then d else { d with store }

/-- Refuses a name outside all bases. -/
def checkCovered (d : Directory) (dn : String) : Except Failure Unit :=
  if d.covers dn then .ok () else .error (.outsideBases dn)

/-- Refuses a name whose parent is not stored, unless it is a base itself. -/
def checkParent (d : Directory) (dn : String) : Except Failure Unit :=
  let parent := (Dn.parent? dn).getD ""
  if d.isBase dn || d.store.contains parent then .ok ()
  else .error (.noSuchParent parent (d.closestAncestor dn))

/-- The attribute values of the first relative name of an entry to be added. -/
def namingOf (dn : String) : Except Failure (List Dn.NameValue) :=
  match Dn.split dn with
  | [] => .error .rootDse
  | rdn :: _ =>
    let components := Dn.components rdn
    if components.isEmpty then .error (.invalidDn dn) else .ok components

/-- Adds an entry, with the values that its name is made of. -/
def add (d : Directory) (e : Entry) (noOp : Bool) : Except Failure (Entry × Directory) := do
  let components ← namingOf e.dn
  d.checkCovered e.dn
  if d.store.contains e.dn then throw (.entryExists e.dn)
  d.checkParent e.dn
  let added ← (Edit.addNaming components).apply e
  return (added, d.commit noOp (d.store.put added))

/-- Deletes an entry that has no others below it, or all of them too if `subtree` says so. -/
def delete (d : Directory) (dn : String) (subtree noOp : Bool) :
    Except Failure (Entry × Directory) := do
  let e ← d.require dn
  let below := d.store.subtree dn
  if 1 < below.length ∧ !subtree then throw (.hasSubordinates dn)
  return (e, d.commit noOp (below.foldl (fun s e => s.erase e.dn) d.store))

/-- Refuses an entry that lacks a value its name is made of. -/
def checkNaming (dn : String) (e : Entry) : Except Failure Unit :=
  let missing := (((Dn.split dn).head?.map Dn.components).getD []).find? fun c =>
    !e.hasValue c.name (Ber.utf8Bytes c.value)
  match missing with
  | some c => .error (.namingValueRemoved c.name c.value)
  | none => .ok ()

/-- Makes all changes of an entry or none, and answers the entry before and after. -/
def modify (d : Directory) (dn : String) (changes : List Change) (permissive noOp : Bool) :
    Except Failure ((Entry × Entry) × Directory) := do
  let before ← d.require dn
  let after ← Edit.apply (changes.forM fun c => Edit.change c permissive) before
  checkNaming dn after
  return ((before, after), d.commit noOp (d.store.put after))

/-! ### Renaming -/

/-- The name above an entry that is renamed. -/
def superiorOf (d : Directory) (dn : String) (newSuperior : Option String) :
    Except Failure String :=
  match newSuperior with
  | none => .ok ((Dn.parent? dn).getD "")
  | some superior =>
    if superior.isEmpty || d.store.contains superior then .ok superior
    else .error (.noSuchSuperior superior)

def newName (newRdn superior : String) : String :=
  if superior.isEmpty then Text.trim newRdn else Text.trim newRdn ++ "," ++ superior

/-- Refuses a new name below the old one, one that is taken, and one outside all bases. -/
def checkNewName (d : Directory) (dn newDn : String) : Except Failure Unit := do
  let old := Dn.normalize dn
  let new := Dn.normalize newDn
  if Dn.isWithin new old ∧ new ≠ old then throw .moveBelowItself
  if new ≠ old ∧ d.store.contains newDn then throw (.entryExists newDn)
  d.checkCovered newDn

/-- Removes the values of an old relative name that the new one does not repeat. -/
def removeOldNaming (dn : String) (components : List Dn.NameValue) : Edit :=
  (((Dn.split dn).head?.map Dn.components).getD []).forM fun old => do
    let kept := components.any fun c =>
      Text.sameText c.name old.name && Text.sameText c.value old.value
    if !kept then Edit.removeValues old.name [Ber.utf8Bytes old.value] true

/-- The name of an entry below one that is renamed: its own leading relative names, followed by the
new name. An entry with fewer relative names than the renamed one has none. -/
def movedName? (dn newDn sub : String) : Option String :=
  let parts := Dn.split sub
  let above := (Dn.split dn).length
  if above ≤ parts.length then
    some (",".intercalate (parts.take (parts.length - above)) ++ "," ++ newDn)
  else none

/-- Puts the entries below one that is renamed under their new names, one after the other. An entry
that has no new name is removed, and those behind it stay where they are. -/
def moveBelow (dn newDn : String) : List Entry → Store → Except Store Store
  | [], s => .ok s
  | e :: rest, s =>
    match movedName? dn newDn e.dn with
    | some name => moveBelow dn newDn rest ((s.erase e.dn).put (e.rename name))
    | none => .error (s.erase e.dn)

/-- Puts an entry under its new name, and those below it too. -/
def moveSubtree (s : Store) (dn : String) (after : Entry) : Except Store Store := do
  let old := Dn.normalize dn
  let below := (s.subtree dn).filter fun e => Dn.normalize e.dn != old
  return (← moveBelow dn after.dn below (s.erase dn)).put after

/-- An entry before and after its renaming, if that passes all checks. -/
def planRenaming (d : Directory) (r : ModifyDnRequest) : Except Failure (Entry × Entry) := do
  let before ← d.require r.dn
  let components := Dn.components r.newRdn
  if components.isEmpty then throw (.invalidRdn r.newRdn)
  let superior ← d.superiorOf r.dn r.newSuperior
  let newDn := newName r.newRdn superior
  d.checkNewName r.dn newDn
  let edit : Edit := do
    if r.deleteOldRdn then removeOldNaming r.dn components
    Edit.addNaming components
  let after ← edit.apply (before.rename newDn)
  return (before, after)

/-- How a renaming ends, with the directory afterwards. -/
inductive Renaming where
  | done (before after : Entry) (d : Directory)
  /-- It broke off at an entry without a new name, and part of the entries is moved. -/
  | brokenOff (d : Directory)

/-- Renames or moves an entry together with those below it, and answers it before and after. -/
def modifyDn (d : Directory) (r : ModifyDnRequest) (noOp : Bool) : Except Failure Renaming := do
  let (before, after) ← d.planRenaming r
  if noOp then return .done before after d
  match moveSubtree d.store r.dn after with
  | .ok store => return .done before after { d with store }
  | .error store => return .brokenOff { d with store }

end Ldap.Directory
