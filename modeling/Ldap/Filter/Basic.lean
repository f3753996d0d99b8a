/-! Search filters as trees. The leaves compare an attribute with an assertion value, ask for its
presence, or match parts of its values; the nodes are conjunction, disjunction and negation. -/

namespace Ldap

/-- How a leaf compares the values of an attribute with its assertion value. -/
inductive Comparison where
  | equality
  | greaterOrEqual
  | lessOrEqual
  | approximate
deriving DecidableEq, Repr

inductive Filter where
  | and (filters : List Filter)
  | or (filters : List Filter)
  | not (filter : Filter)
  | compare (comparison : Comparison) (name : String) (value : List UInt8)
  | substrings (name : String) (initial : Option (List UInt8)) (any : List (List UInt8))
      (final : Option (List UInt8))
  | present (name : String)
  /-- A match by a rule, on one attribute or on all, and on the components of the name if
  `dnAttributes` asks for it. -/
  | extensible (rule name : Option String) (value : List UInt8) (dnAttributes : Bool)
deriving Inhabited, Repr

namespace Filter

def equality (name : String) (value : List UInt8) : Filter :=
  .compare .equality name value

/-- The usual filter that every entry matches. -/
def matchAll : Filter := .present "objectClass"

mutual

/-- Equality of filters, decided along their trees. -/
def decEq : (f g : Filter) → Decidable (f = g)
  | .and fs, .and gs =>
    match decEqAll fs gs with
    | isTrue h => isTrue (by rw [h])
    | isFalse h => isFalse (by simpa using h)
  | .or fs, .or gs =>
    match decEqAll fs gs with
    | isTrue h => isTrue (by rw [h])
    | isFalse h => isFalse (by simpa using h)
  | .not f, .not g =>
    match decEq f g with
    | isTrue h => isTrue (by rw [h])
    | isFalse h => isFalse (by simpa using h)
  | .compare c a v, .compare c' a' v' =>
    decidable_of_iff (c = c' ∧ a = a' ∧ v = v') (by simp)
  | .substrings a i n f, .substrings a' i' n' f' =>
    decidable_of_iff (a = a' ∧ i = i' ∧ n = n' ∧ f = f') (by simp)
  | .present a, .present a' => decidable_of_iff (a = a') (by simp)
  | .extensible r a v d, .extensible r' a' v' d' =>
    decidable_of_iff (r = r' ∧ a = a' ∧ v = v' ∧ d = d') (by simp)
  | .and _, .or _ | .and _, .not _ | .and _, .compare .. | .and _, .substrings ..
  | .and _, .present _ | .and _, .extensible .. => isFalse (by simp)
  | .or _, .and _ | .or _, .not _ | .or _, .compare .. | .or _, .substrings ..
  | .or _, .present _ | .or _, .extensible .. => isFalse (by simp)
  | .not _, .and _ | .not _, .or _ | .not _, .compare .. | .not _, .substrings ..
  | .not _, .present _ | .not _, .extensible .. => isFalse (by simp)
  | .compare .., .and _ | .compare .., .or _ | .compare .., .not _ | .compare .., .substrings ..
  | .compare .., .present _ | .compare .., .extensible .. => isFalse (by simp)
  | .substrings .., .and _ | .substrings .., .or _ | .substrings .., .not _
  | .substrings .., .compare .. | .substrings .., .present _
  | .substrings .., .extensible .. => isFalse (by simp)
  | .present _, .and _ | .present _, .or _ | .present _, .not _ | .present _, .compare ..
  | .present _, .substrings .. | .present _, .extensible .. => isFalse (by simp)
  | .extensible .., .and _ | .extensible .., .or _ | .extensible .., .not _
  | .extensible .., .compare .. | .extensible .., .substrings ..
  | .extensible .., .present _ => isFalse (by simp)

def decEqAll : (fs gs : List Filter) → Decidable (fs = gs)
  | [], [] => isTrue rfl
  | f :: fs, g :: gs =>
    match decEq f g, decEqAll fs gs with
    | isTrue h, isTrue h' => isTrue (by rw [h, h'])
    | isFalse h, _ => isFalse (by simp [h])
    | _, isFalse h => isFalse (by simp [h])
  | [], _ :: _ | _ :: _, [] => isFalse (by simp)

end

instance : DecidableEq Filter := decEq

end Filter

end Ldap
