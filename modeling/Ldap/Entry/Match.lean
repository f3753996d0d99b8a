import Ldap.Entry.Basic

/-! Whether an entry matches a filter. A leaf holds if some value of its attribute satisfies it. -/

namespace Ldap

/-- Values that are both numbers are ordered as numbers, all others as texts without regard to ASCII
case. -/
def compareValues (a b : List UInt8) : Ordering :=
  match Text.numberOf? a, Text.numberOf? b with
  | some x, some y => if x < y then .lt else if y < x then .gt else .eq
  | _, _ => Text.compareBytes (Text.lowerBytes a) (Text.lowerBytes b)

/-- Whether a value consists of the given parts in order, with gaps between them, without regard to
ASCII case. Each part is taken where it first occurs. -/
def matchesParts (value : List UInt8) (initial : Option (List UInt8)) (any : List (List UInt8))
    (final : Option (List UInt8)) : Bool :=
  let behindInitial := Text.strip? (Text.lowerBytes (initial.getD [])) (Text.lowerBytes value)
  let rest := behindInitial.bind fun rest =>
    any.foldlM (fun rest part => Text.afterFirst? (Text.lowerBytes part) rest) rest
  match rest with
  | none => false
  | some rest => (Text.lowerBytes (final.getD [])).isSuffixOf rest

namespace Entry

def satisfies (e : Entry) (comparison : Comparison) (name : String) (value : List UInt8) : Bool :=
  match comparison with
  | .equality | .approximate => e.hasValue name value
  | .greaterOrEqual => (e.values name).any fun v => compareValues v value != .lt
  | .lessOrEqual => (e.values name).any fun v => compareValues v value != .gt

/-- Whether the name of the entry has a value, under one attribute or under any. -/
def hasNamingValue (e : Entry) (name : Option String) (value : List UInt8) : Bool :=
  (Dn.split e.dn).any fun rdn => (Dn.components rdn).any fun c =>
    name.all (Text.sameText · c.name) && Text.sameBytes (Ber.utf8Bytes c.value) value

/-- Whether the attributes of the entry have a value, under one attribute or under any. -/
def hasValueOf (e : Entry) (name : Option String) (value : List UInt8) : Bool :=
  match name with
  | some name => e.hasValue name value
  | none => e.attributes.any fun a => a.values.any (Text.sameBytes · value)

mutual

def isMatch (e : Entry) : Filter → Bool
  | .and filters => matchesAll e filters
  | .or filters => matchesAny e filters
  | .not filter => !isMatch e filter
  | .compare comparison name value => e.satisfies comparison name value
  | .present name => e.hasAttribute name
  | .substrings name initial any final =>
    (e.values name).any fun v => matchesParts v initial any final
  | .extensible _ name value dnAttributes =>
    e.hasValueOf name value || (dnAttributes && e.hasNamingValue name value)

def matchesAll (e : Entry) : List Filter → Bool
  | [] => true
  | filter :: rest => isMatch e filter && matchesAll e rest

def matchesAny (e : Entry) : List Filter → Bool
  | [] => false
  | filter :: rest => isMatch e filter || matchesAny e rest

end

end Entry

end Ldap
