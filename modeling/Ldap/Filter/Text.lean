import Ldap.Text.Hex
import Ldap.Filter.Basic

/-! The text form of filters: a parenthesised prefix notation in which the special characters of
assertion values, and all bytes but printable ASCII, are written as a backslash and two digits. -/

namespace Ldap.Filter

/-- Whether a byte of a value is written as it is. -/
def isPlain (b : UInt8) : Bool :=
  0x20 ≤ b && b ≤ 0x7E && !(['*', '(', ')', '\\'].contains (Char.ofNat b.toNat))

def escapeByte (b : UInt8) : String :=
  if isPlain b then String.singleton (Char.ofNat b.toNat) else "\\" ++ Text.hexByte b

def escape (value : List UInt8) : String :=
  String.join (value.map escapeByte)

def comparisonSign : Comparison → String
  | .equality => "="
  | .greaterOrEqual => ">="
  | .lessOrEqual => "<="
  | .approximate => "~="

mutual

def text : Filter → String
  | .and filters => "(&" ++ texts filters ++ ")"
  | .or filters => "(|" ++ texts filters ++ ")"
  | .not filter => "(!" ++ text filter ++ ")"
  | .compare comparison name value => "(" ++ name ++ comparisonSign comparison ++ escape value ++ ")"
  | .substrings name initial any final =>
    "(" ++ name ++ "=" ++ escape (initial.getD []) ++ "*"
      ++ String.join (any.map (escape · ++ "*")) ++ escape (final.getD []) ++ ")"
  | .present name => "(" ++ name ++ "=*)"
  | .extensible rule name value dnAttributes =>
    "(" ++ name.getD "" ++ (if dnAttributes then ":dn" else "")
      ++ (rule.map (":" ++ ·)).getD "" ++ ":=" ++ escape value ++ ")"

def texts : List Filter → String
  | [] => ""
  | filter :: rest => text filter ++ texts rest

end

end Ldap.Filter
