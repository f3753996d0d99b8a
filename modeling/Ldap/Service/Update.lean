import Ldap.Service.Gate

/-! Updates and comparison: the assertion made of the entry, the operation on the directory, and the
copies of the entry before and after that the request asks for. -/

namespace Ldap.Service

/-- The result of an update that succeeded, or would have. -/
def updateResult (a : Admitted) : Result :=
  if a.contains .noOp then
    { code := .noOperation, message := "the operation would have succeeded but was not applied" }
  else .success

/-- A copy of an entry, with the attributes that a control asks for. -/
def copy (kind : ControlKind) (attributes : Option (List String)) (e : Entry) : List Control :=
  (attributes.map fun names => Control.readEntry kind (e.toResult names false)).toList

def preRead (a : Admitted) (e : Entry) : List Control := copy .preRead a.preRead? e

def postRead (a : Admitted) (e : Entry) : List Control := copy .postRead a.postRead? e

def add (d : Directory) (dn : String) (attributes : List Attribute) (a : Admitted) :
    Except Failure (Reply × Directory) := do
  let e := Entry.ofAttributes dn attributes
  checkAssertion a e
  let (added, d) ← d.add e (a.contains .noOp)
  return (⟨.addResponse (updateResult a), postRead a added⟩, d)

def delete (d : Directory) (dn : String) (a : Admitted) : Except Failure (Reply × Directory) := do
  checkAssertion a (← existing d dn)
  let (removed, d) ← d.delete dn (a.contains .subtreeDelete) (a.contains .noOp)
  return (⟨.deleteResponse (updateResult a), preRead a removed⟩, d)

def modify (d : Directory) (dn : String) (changes : List Change) (a : Admitted) :
    Except Failure (Reply × Directory) := do
  checkAssertion a (← existing d dn)
  let ((before, after), d) ←
    d.modify dn changes (a.contains .permissiveModify) (a.contains .noOp)
  return (⟨.modifyResponse (updateResult a), preRead a before ++ postRead a after⟩, d)

/-- A renaming that breaks off has no reply. -/
def modifyDn (d : Directory) (r : ModifyDnRequest) (a : Admitted) :
    Except Failure (Option Reply × Directory) := do
  checkAssertion a (← existing d r.dn)
  match ← d.modifyDn r (a.contains .noOp) with
  | .done before after d =>
    return (some ⟨.modifyDnResponse (updateResult a), preRead a before ++ postRead a after⟩, d)
  | .brokenOff d => return (none, d)

def compare (d : Directory) (dn name : String) (value : List UInt8) (a : Admitted) :
    Except Failure Reply := do
  checkAssertion a (← existing d dn)
  let holds ← d.compare dn name value
  return ⟨.compareResponse { code := if holds then .compareTrue else .compareFalse }, []⟩

end Ldap.Service
