/-! What a mechanism keeps of a connection from one bind to the next: values of several types, by
name. -/

namespace Ldap

inductive SaslValue where
  | number (n : UInt32)
  | text (s : String)
  | octets (bytes : List UInt8)
deriving DecidableEq, Repr

namespace SaslValue

def number? : SaslValue → Option UInt32
  | .number n => some n
  | _ => none

def text? : SaslValue → Option String
  | .text s => some s
  | _ => none

def octets? : SaslValue → Option (List UInt8)
  | .octets bytes => some bytes
  | _ => none

end SaslValue

structure SaslState where
  values : List (String × SaslValue) := []
deriving DecidableEq, Repr

namespace SaslState

def get? (s : SaslState) (name : String) : Option SaslValue := s.values.lookup name

def contains (s : SaslState) (name : String) : Bool := (s.get? name).isSome

def erase (s : SaslState) (name : String) : SaslState := ⟨s.values.filter (·.1 != name)⟩

/-- Stores a value in place of one of the same name. -/
def insert (s : SaslState) (name : String) (value : SaslValue) : SaslState :=
  ⟨(s.erase name).values ++ [(name, value)]⟩

def size (s : SaslState) : Nat := s.values.length

def clear (_ : SaslState) : SaslState := {}

end SaslState

end Ldap
