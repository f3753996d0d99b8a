/-! Looking for parts inside lists, and the dictionary order of bytes. -/

namespace Ldap.Text

variable {α : Type} [BEq α]

/-- What is left of a list behind a part at its start. -/
def strip? (part l : List α) : Option (List α) :=
  if part.isPrefixOf l then some (l.drop part.length) else none

/-- What is left of a list behind the first occurrence of a part. -/
def afterFirst? (part : List α) : List α → Option (List α)
  | [] => if part.isEmpty then some [] else none
  | a :: rest => strip? part (a :: rest) <|> afterFirst? part rest

def containsPart (part l : List α) : Bool :=
  (afterFirst? part l).isSome

/-- Compares lists of bytes like words in a dictionary. -/
def compareBytes : List UInt8 → List UInt8 → Ordering
  | [], [] => .eq
  | [], _ :: _ => .lt
  | _ :: _, [] => .gt
  | a :: as, b :: bs => if a < b then .lt else if b < a then .gt else compareBytes as bs

end Ldap.Text
