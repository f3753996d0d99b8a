import Ldap.Dn
import Ldap.Failure
import Ldap.Text.Numeral

/-! Entries: a name and attributes, whose names are compared without regard to ASCII case. Edits are
steps over an entry that may fail; a failed edit leaves the entry as far as it got. -/

namespace Ldap

/-- Values of attributes whose name speaks of a password are compared byte for byte, all others
without regard to ASCII case. -/
def sameValue (name : String) (a b : List UInt8) : Bool :=
  if Text.containsPart "password".toList (Text.lowerAscii name).toList then a == b
  else Text.sameBytes a b

structure Entry where
  dn : String
  attributes : List Attribute := []
deriving DecidableEq, Repr

namespace Entry

def attribute? (e : Entry) (name : String) : Option Attribute :=
  e.attributes.find? fun a => Text.sameText a.name name

def values (e : Entry) (name : String) : List (List UInt8) :=
  ((e.attribute? name).map (·.values)).getD []

def hasAttribute (e : Entry) (name : String) : Bool :=
  (e.attribute? name).isSome

def hasValue (e : Entry) (name : String) (value : List UInt8) : Bool :=
  (e.values name).any fun v => sameValue name v value

/-- The entry under another name. -/
def rename (e : Entry) (dn : String) : Entry := { e with dn }

/-- Changes the values of the attribute of a name. -/
def updateValues (name : String) (f : List (List UInt8) → List (List UInt8)) :
    List Attribute → List Attribute
  | [] => []
  | a :: rest =>
    if Text.sameText a.name name then { a with values := f a.values } :: rest
    else a :: updateValues name f rest

/-- Drops the attribute of a name. -/
def eraseAttribute (e : Entry) (name : String) : Entry :=
  { e with attributes := e.attributes.filter fun a => !Text.sameText a.name name }

def setValues (e : Entry) (name : String) (f : List (List UInt8) → List (List UInt8)) : Entry :=
  { e with attributes := updateValues name f e.attributes }

/-- Replaces all values of an attribute; without values the attribute is dropped. -/
def replaceValues (e : Entry) (name : String) (values : List (List UInt8)) : Entry :=
  let e := e.eraseAttribute name
  if values.isEmpty then e else { e with attributes := e.attributes ++ [⟨name, values⟩] }

end Entry

/-- A change of an entry that may fail. -/
abbrev Edit := EStateM Failure Entry Unit

namespace Edit

/-- Runs an edit and forgets what a failed one did. -/
def apply (edit : Edit) (e : Entry) : Except Failure Entry :=
  match edit.run e with
  | .ok _ e => .ok e
  | .error f _ => .error f

/-- Adds one value to an attribute that is there. A permissive edit passes over a value that is
there already. -/
def addValue (name : String) (permissive : Bool) (value : List UInt8) : Edit := do
  if (← get).hasValue name value then
    if permissive then return () else throw (.valueExists name)
  else modify (·.setValues name (· ++ [value]))

/-- Adds values to an attribute, which is made if need be. -/
def addValues (name : String) (values : List (List UInt8)) (permissive : Bool) : Edit := do
  if values.isEmpty then throw (.noValues name)
  modify fun e =>
    if e.hasAttribute name then e else { e with attributes := e.attributes ++ [⟨name, []⟩] }
  values.forM (addValue name permissive)

/-- Removes one value of an attribute. A permissive edit passes over a value that is not there. -/
def removeValue (name : String) (permissive : Bool) (value : List UInt8) : Edit := do
  if (← get).hasValue name value then
    modify (·.setValues name (·.eraseP fun v => sameValue name v value))
  else if permissive then return () else throw (.valueMissing name)

/-- Removes values of an attribute, or the attribute if no values are given or none are left. -/
def removeValues (name : String) (values : List (List UInt8)) (permissive : Bool) : Edit := do
  if (← get).hasAttribute name then
    values.forM (removeValue name permissive)
    if values.isEmpty || ((← get).values name).isEmpty then modify (·.eraseAttribute name)
  else if permissive then return () else throw (.valueMissing name)

/-- Adds a number to the numbers in front of a list, up to a value that is none. -/
def incrementEach (delta : Int64) : List (List UInt8) → List (List UInt8) × Bool
  | [] => ([], true)
  | value :: rest =>
    match Text.numberOf? value with
    | none => (value :: rest, false)
    | some n =>
      let (rest, complete) := incrementEach delta rest
      (Ber.utf8Bytes (toString (n + delta).toInt) :: rest, complete)

/-- The number that increments are given as. -/
def incrementOf? : List (List UInt8) → Option Int64
  | [value] => Text.numberOf? value
  | _ => none

/-- Adds a number to every value of an attribute, with 64 bits. -/
def increment (name : String) (values : List (List UInt8)) : Edit := do
  match incrementOf? values with
  | none => throw .incrementValue
  | some delta =>
    match (← get).attribute? name with
    | none => throw (.incrementMissing name)
    | some a =>
      let (values, complete) := incrementEach delta a.values
      modify (·.setValues name fun _ => values)
      if complete then return () else throw (.notInteger name)

/-- Makes one change of a modify request. -/
def change (c : Change) (permissive : Bool) : Edit :=
  match c.kind with
  | .add => addValues c.target.name c.target.values permissive
  | .delete => removeValues c.target.name c.target.values permissive
  | .replace => modify (·.replaceValues c.target.name c.target.values)
  | .increment => increment c.target.name c.target.values

/-- Adds the values that a relative name is made of. -/
def addNaming (components : List Dn.NameValue) : Edit :=
  components.forM fun c => addValues c.name [Ber.utf8Bytes c.value] true

end Edit

namespace Entry

/-- An entry of given attributes. Attributes of one name are merged, and those without values are
left out. -/
def ofAttributes (dn : String) (attributes : List Attribute) : Entry :=
  attributes.foldl (fun e a =>
    match (Edit.addValues a.name a.values true).run e with
    | .ok _ e | .error _ e => e) { dn }

/-- The entry as a search returns it, with the attributes asked for. No names, a star or a plus sign
ask for all attributes, and the name 1.1 alone for none. -/
def toResult (e : Entry) (requested : List String) (typesOnly : Bool) : ResultEntry :=
  let all := requested.isEmpty || requested.contains "*" || requested.contains "+"
  let wanted (a : Attribute) : Bool :=
    requested != ["1.1"] && (all || requested.any fun r => Text.sameText r a.name)
  ⟨e.dn, (e.attributes.filter wanted).map fun a => if typesOnly then ⟨a.name, []⟩ else a⟩

end Entry

end Ldap
