import Ldap.Text.Numeral

/-! Configuration documents: trees of lists and maps whose leaves know whether they were quoted. A
leaf that is read as text may be any bare word or number, but a quoted text is nothing else. -/

namespace Ldap.Config

inductive Document where
  | null
  | bool (value : Bool)
  /-- A bare number, as it is written. -/
  | number (digits : String)
  /-- A quoted text. -/
  | text (value : String)
  | list (items : List Document)
  | map (fields : List (String × Document))
deriving Inhabited, Repr

namespace Document

/-- A text, or a bare leaf as it is written. -/
def text? : Document → Option String
  | .null => some "null"
  | .bool value => some (if value then "true" else "false")
  | .number digits => some digits
  | .text value => some value
  | .list _ | .map _ => none

/-- A text that is quoted. -/
def quoted? : Document → Option String
  | .text value => some value
  | _ => none

def bool? : Document → Option Bool
  | .bool value => some value
  | _ => none

/-- A bare number without sign or fraction, of at most 64 bits. -/
def nat? : Document → Option Nat
  | .number digits => (Text.readDigits Text.maxNat64 0 digits.toList).toOption
  | _ => none

/-- A value that may be left open. -/
def optional? {α : Type} (read : Document → Option α) : Document → Option (Option α)
  | .null => some none
  | d => (read d).map some

def list? {α : Type} (read : Document → Option α) : Document → Option (List α)
  | .list items => items.mapM read
  | _ => none

def fields? : Document → Option (List (String × Document))
  | .map fields => some fields
  | _ => none

end Document

/-- Reads a field, or answers what holds without it. -/
def field {α : Type} (fields : List (String × Document)) (name : String)
    (read : Document → Option α) (absent : Option α) : Option α :=
  match fields.lookup name with
  | some d => read d
  | none => absent

end Ldap.Config
