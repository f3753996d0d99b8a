import Ldap.Control.Request

/-! Which controls of a request take effect. A control that does not apply to the operation is
dropped, unless it is critical; the others are decoded, and some may not stand together. -/

namespace Ldap

inductive AdmissionError where
  | unavailable (oid : String) (operation : Operation)
  | malformed (oid : String) (cause : Ber.Error)
  | repeated (oid : String)
  /-- Both versions of proxied authorization were given. -/
  | proxiedTwice
  | pagedListView
  | sortMissing
deriving DecidableEq, Repr

namespace AdmissionError

def code : AdmissionError → ResultCode
  | .unavailable .. => .unavailableCriticalExtension
  | .malformed .. => .protocolError
  | .repeated _ | .proxiedTwice | .pagedListView => .constraintViolation
  | .sortMissing => .sortControlMissing

def message : AdmissionError → String
  | .unavailable oid operation =>
    "critical control " ++ oid ++ " is not supported for " ++ operation.name ++ " operations"
  | .malformed oid cause => "unable to decode the value of control " ++ oid ++ ": " ++ cause.message
  | .repeated oid => "the request contains multiple " ++ oid ++ " controls"
  | .proxiedTwice =>
    "the request cannot include both the proxied authorization v1 and v2 controls"
  | .pagedListView =>
    "the request cannot include both the virtual list view and simple paged results controls"
  | .sortMissing =>
    "the virtual list view request control requires a server-side sort request control"

end AdmissionError

/-- The controls that take effect, each as it was sent and decoded. No two have the same object
identifier. -/
structure Admitted where
  controls : List (Control × RequestControl) := []
deriving DecidableEq, Repr

namespace Admitted

def get? (a : Admitted) (oid : String) : Option RequestControl :=
  (a.controls.find? (·.1.oid == oid)).map (·.2)

def contains (a : Admitted) (kind : ControlKind) : Bool :=
  a.controls.any (·.1.oid == kind.oid)

/-- Adds a control in place of one with the same object identifier. -/
def put (a : Admitted) (c : Control) (decoded : RequestControl) : Admitted :=
  ⟨a.controls.filter (·.1.oid != c.oid) ++ [(c, decoded)]⟩

def assertion? (a : Admitted) : Option Filter :=
  match a.get? ControlKind.assertion.oid with
  | some (.assertion filter) => some filter
  | _ => none

def preRead? (a : Admitted) : Option (List String) :=
  match a.get? ControlKind.preRead.oid with
  | some (.preRead attributes) => some attributes
  | _ => none

def postRead? (a : Admitted) : Option (List String) :=
  match a.get? ControlKind.postRead.oid with
  | some (.postRead attributes) => some attributes
  | _ => none

def sortKeys? (a : Admitted) : Option (List SortKey) :=
  match a.get? ControlKind.sort.oid with
  | some (.sort keys) => some keys
  | _ => none

/-- The size of a page and the cookie that it resumes from. -/
def page? (a : Admitted) : Option (Int32 × List UInt8) :=
  match a.get? ControlKind.pagedResults.oid with
  | some (.pagedResults size cookie) => some (size, cookie)
  | _ => none

def listView? (a : Admitted) : Option ListView :=
  match a.get? ControlKind.listView.oid with
  | some (.listView view) => some view
  | _ => none

/-- Admits one more control. -/
def admitNext (operation : Operation) (a : Admitted) (c : Control) :
    Except AdmissionError Admitted :=
  match ControlKind.ofOid? c.oid with
  | some .internalOperation => .ok (a.put c .internalOperation)
  | some kind =>
    if kind.operations.contains operation then
      match c.decode kind with
      | .error cause => .error (.malformed c.oid cause)
      | .ok decoded =>
        if a.contains kind then .error (.repeated c.oid) else .ok (a.put c decoded)
    else dropOrRefuse c
  | none => dropOrRefuse c
where
  /-- What becomes of a control that does not apply. -/
  dropOrRefuse (c : Control) : Except AdmissionError Admitted :=
    if c.critical then .error (.unavailable c.oid operation) else .ok a

/-- Refuses combinations of controls that make no sense together. -/
def checkTogether (a : Admitted) : Except AdmissionError Unit :=
  if a.contains .proxiedAuthorizationV1 && a.contains .proxiedAuthorizationV2 then
    .error .proxiedTwice
  else if a.contains .listView && a.contains .pagedResults then .error .pagedListView
  else if a.contains .listView && !a.contains .sort then .error .sortMissing
  else .ok ()

/-- Admits the controls of a request, in their order. -/
def ofControls (operation : Operation) (controls : List Control) :
    Except AdmissionError Admitted := do
  let a ← controls.foldlM (admitNext operation) {}
  a.checkTogether
  return a

end Admitted

end Ldap
