import Ldap.Text.Quoted

/-! Addresses of sockets: an address of the fourth or the sixth version of the internet protocol,
and the number of a socket at it. Their text is the short one, in which the sixth version leaves out
its longest run of zero groups. -/

namespace Ldap.Net

structure Ipv4 where
  a : UInt8
  b : UInt8
  c : UInt8
  d : UInt8
deriving DecidableEq, Repr

/-- Eight groups of sixteen bits. -/
structure Ipv6 where
  groups : List UInt16
  length_eq : groups.length = 8 := by rfl
deriving DecidableEq, Repr

inductive SocketAddress where
  | v4 (address : Ipv4) (portNumber : UInt16)
  /-- The scope tells which link of the host is meant, and is zero where there is one only. -/
  | v6 (address : Ipv6) (scope : UInt32) (portNumber : UInt16)
deriving DecidableEq, Repr

namespace Ipv4

/-- The address that stands for all those of the host. -/
def unspecified : Ipv4 := ⟨0, 0, 0, 0⟩

def text (i : Ipv4) : String :=
  ".".intercalate ([i.a, i.b, i.c, i.d].map fun n => toString n.toNat)

/-- The address as two groups of sixteen bits. -/
def groups (i : Ipv4) : List UInt16 :=
  [i.a.toUInt16 * 256 + i.b.toUInt16, i.c.toUInt16 * 256 + i.d.toUInt16]

/-- The address that two groups make up. -/
def ofGroups (high low : UInt16) : Ipv4 :=
  ⟨(high / 256).toUInt8, high.toUInt8, (low / 256).toUInt8, low.toUInt8⟩

end Ipv4

namespace Ipv6

def ofGroups? (groups : List UInt16) : Option Ipv6 :=
  if h : groups.length = 8 then some ⟨groups, h⟩ else none

/-- The address of the fourth version that is embedded behind five zero groups and one of ones. -/
def mapped? (i : Ipv6) : Option Ipv4 :=
  match i.groups with
  | [0, 0, 0, 0, 0, 0xFFFF, high, low] => some (Ipv4.ofGroups high low)
  | _ => none

/-- Where the longest run of zeros starts, and its length. Of two equal runs the first one counts. -/
def longestZeros : List UInt16 → Nat × Nat
  | [] => (0, 0)
  | g :: rest =>
    let here := ((g :: rest).takeWhile (· == 0)).length
    let (start, length) := longestZeros rest
    if length ≤ here then (0, here) else (start + 1, length)

def groupsText (groups : List UInt16) : String :=
  ":".intercalate (groups.map fun g => Text.hexDigits g.toNat)

/-- A run of two or more zero groups becomes two colons, and an embedded address keeps its dots. -/
def text (i : Ipv6) : String :=
  match i.mapped? with
  | some embedded => "::ffff:" ++ embedded.text
  | none =>
    let (start, length) := longestZeros i.groups
    if 1 < length then
      groupsText (i.groups.take start) ++ "::" ++ groupsText (i.groups.drop (start + length))
    else groupsText i.groups

end Ipv6

namespace SocketAddress

def isV4 : SocketAddress → Bool
  | .v4 .. => true
  | .v6 .. => false

def portNumber : SocketAddress → UInt16
  | .v4 _ n | .v6 _ _ n => n

/-- The text of the address alone. -/
def ipText : SocketAddress → String
  | .v4 address _ => address.text
  | .v6 address _ _ => address.text

def text : SocketAddress → String
  | .v4 address n => address.text ++ ":" ++ toString n.toNat
  | .v6 address scope n =>
    let suffix := if scope = 0 then "" else "%" ++ toString scope.toNat
    "[" ++ address.text ++ suffix ++ "]:" ++ toString n.toNat

end SocketAddress

end Ldap.Net
