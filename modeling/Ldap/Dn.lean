import Ldap.Text.Ascii
import Ldap.Text.Blank
import Ldap.Text.Lowercase
import Ldap.Text.Part

/-! Distinguished names. A name is a sequence of relative names between commas, the closest first,
and a relative name is a sequence of attribute values between plus signs. A backslash takes away the
meaning of the character after it. Names that differ in case, spaces, escapes or the order of values
have one normalized form. -/

namespace Ldap.Dn

/-! ### Cutting -/

/-- Puts a character in front of the first piece. -/
def consFirst (c : Char) : List (List Char) → List (List Char)
  | [] => [[c]]
  | piece :: rest => (c :: piece) :: rest

/-- Cuts a text at separators that are neither escaped nor, if `quotes` is set, between quotes. -/
def cut (isSeparator : Char → Bool) (quotes : Bool) :
    (escaped quoted : Bool) → List Char → List (List Char)
  | _, _, [] => [[]]
  | true, quoted, c :: cs => consFirst c (cut isSeparator quotes false quoted cs)
  | false, quoted, c :: cs =>
    if c = '\\' then consFirst c (cut isSeparator quotes true quoted cs)
    else if quotes ∧ c = '"' then consFirst c (cut isSeparator quotes false (!quoted) cs)
    else if isSeparator c ∧ !quoted then [] :: cut isSeparator quotes false quoted cs
    else consFirst c (cut isSeparator quotes false quoted cs)

/-- The relative names of a name, without the blanks around them. A blank name has none. -/
def split (dn : String) : List String :=
  let pieces := (cut (fun c => c == ',' || c == ';') true false false dn.toList).map Text.trimChars
  if pieces = [[]] then [] else pieces.map String.ofList

/-- One attribute value of a relative name. -/
structure NameValue where
  name : String
  value : String
deriving DecidableEq, Repr

/-- Removes each backslash and keeps the character after it. -/
def unescape : List Char → List Char
  | [] => []
  | ['\\'] => []
  | '\\' :: c :: rest => c :: unescape rest
  | c :: rest => c :: unescape rest

/-- What stands between quotes at both ends of a value, or the whole value if there are none. -/
def unquote (value : List Char) : List Char :=
  match value with
  | '"' :: rest => if rest.getLast? = some '"' then rest.dropLast else value
  | _ => value

/-- Reads what stands between plus signs: a name up to the first equals sign, and a value. -/
def readComponent? (piece : List Char) : Option NameValue :=
  match piece.span (· != '=') with
  | (name, _ :: value) =>
    some ⟨String.ofList (Text.trimChars name),
      String.ofList (unescape (unquote (Text.trimChars value)))⟩
  | (_, []) => none

/-- The attribute values of a relative name. What has no equals sign is left out. -/
def components (rdn : String) : List NameValue :=
  (cut (· == '+') false false false rdn.toList).filterMap readComponent?

/-! ### Normalized names -/

def NameValue.normalize (c : NameValue) : String :=
  Text.lowerAscii c.name ++ "=" ++ Text.lowercase c.value

/-- The values of a relative name in lower case and in order. -/
def normalizeRdn (rdn : String) : String :=
  "+".intercalate (((components rdn).map NameValue.normalize).mergeSort fun a b => decide (a ≤ b))

/-- The normalized relative names of a name. -/
def rdns (dn : String) : List String :=
  (split dn).map normalizeRdn

/-- The normalized form of a name, under which its entry is kept. -/
def normalize (dn : String) : String :=
  ",".intercalate (rdns dn)

/-- The name without its first relative name; the empty name has no parent. -/
def parent? (dn : String) : Option String :=
  match split dn with
  | [] => none
  | _ :: above => some (",".intercalate above)

/-- Whether a normalized name is another one or lies below it. -/
def isWithin (dn base : String) : Bool :=
  base.isEmpty || dn == base || (',' :: base.toList).isSuffixOf dn.toList

end Ldap.Dn
