import Ldap.Net.Address

/-! Reading socket addresses from text. Each reader takes what it can from the front, or fails and
takes nothing. -/

namespace Ldap.Net

abbrev TextM := StateT (List Char) Option

namespace TextM

/-- Takes one given character. -/
def mark (c : Char) : TextM Unit
  | d :: rest => if c = d then some ((), rest) else none
  | [] => none

def digitValue? (radix : Nat) (c : Char) : Option Nat :=
  let n :=
    if c.isDigit then c.toNat - '0'.toNat
    else if 'a' ≤ c.toLower ∧ c.toLower ≤ 'f' then c.toLower.toNat - 'a'.toNat + 10
    else radix
  if n < radix then some n else none

/-- Takes all digits there are and answers their number, up to a maximum. -/
def number (radix maximum : Nat) (accept : List Nat → Bool) : TextM Nat := fun cs =>
  let isDigit (c : Char) : Bool := (digitValue? radix c).isSome
  let digits := (cs.takeWhile isDigit).filterMap (digitValue? radix)
  let n := digits.foldl (fun n d => n * radix + d) 0
  if !digits.isEmpty && accept digits && n ≤ maximum then some (n, cs.dropWhile isDigit) else none

/-- A number from 0 to 255 without leading zeros. -/
def octet : TextM UInt8 := do
  return (← number 10 255 fun digits => digits.length = 1 || digits.head? != some 0).toUInt8

/-- At most four hexadecimal digits. -/
def group : TextM UInt16 := do
  return (← number 16 0xFFFF fun digits => digits.length ≤ 4).toUInt16

def ipv4 : TextM Ipv4 := do
  let a ← octet
  mark '.'
  let b ← octet
  mark '.'
  let c ← octet
  mark '.'
  return ⟨a, b, c, ← octet⟩

/-- Takes at most `n` groups, each but the first behind a colon, as far as there are any. An address
of the fourth version may stand for the last two of them; the answer tells whether one did. -/
def groups : Nat → Bool → List Char → (List UInt16 × Bool) × List Char
  | 0, _, cs => (([], false), cs)
  | n + 1, first, cs =>
    let separated {α : Type} (item : TextM α) : TextM α :=
      if first then item else do mark ':'; item
    match (if n = 0 then none else (separated ipv4).run cs) with
    | some (embedded, rest) => ((embedded.groups, true), rest)
    | none =>
      match (separated group).run cs with
      | some (g, rest) =>
        let ((more, embedded), rest) := groups n false rest
        ((g :: more, embedded), rest)
      | none => (([], false), cs)

/-- Eight groups, or fewer around two colons, which stand for one zero group or more. -/
def ipv6 : TextM Ipv6 := fun cs =>
  let ((head, embedded), rest) := groups 8 true cs
  if head.length = 8 then (Ipv6.ofGroups? head).map (·, rest)
  else if embedded then none
  else do
    let ((), rest) ← (do mark ':'; mark ':' : TextM Unit) rest
    let ((tail, _), rest) := groups (7 - head.length) true rest
    let zeros := List.replicate (8 - head.length - tail.length) 0
    return (← Ipv6.ofGroups? (head ++ zeros ++ tail), rest)

def portNumber : TextM UInt16 := do
  mark ':'
  return (← number 10 0xFFFF fun _ => true).toUInt16

def scope : TextM UInt32 := do
  mark '%'
  return (← number 10 0xFFFFFFFF fun _ => true).toUInt32

def socketV4 : TextM SocketAddress := do
  let address ← ipv4
  return .v4 address (← portNumber)

def socketV6 : TextM SocketAddress := do
  mark '['
  let address ← ipv6
  let scope ← scope <|> pure 0
  mark ']'
  return .v6 address scope (← portNumber)

end TextM

/-- The socket address that a text spells. -/
def SocketAddress.ofText? (s : String) : Option SocketAddress :=
  match (TextM.socketV4 <|> TextM.socketV6).run s.toList with
  | some (address, []) => some address
  | _ => none

end Ldap.Net
