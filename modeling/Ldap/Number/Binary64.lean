/-! Numbers with 53 significant bits, as far as positive ones are concerned: rounding a quotient to the
nearest of them, and the shortest decimal that is closer to a given one than to any other. -/

namespace Ldap.Number

/-- The number `mantissa * 2 ^ exponent`. Unless it is zero the mantissa has 53 bits. -/
structure Binary64 where
  mantissa : Nat
  exponent : Int
deriving DecidableEq, Repr

/-- A quotient times a power of a base, as a quotient. -/
def scale (base : Nat) (power : Int) (num den : Nat) : Nat × Nat :=
  if 0 ≤ power then (num * Nat.pow base power.toNat, den) else (num, den * Nat.pow base (-power).toNat)

/-- The integer closest to a quotient; halfway it is the even one. -/
def roundHalfEven (num den : Nat) : Nat :=
  let q := num / den
  let twice := 2 * (num % den)
  if twice < den then q else if den < twice then q + 1 else q + q % 2

namespace Binary64

/-- The smallest mantissa of 53 bits. -/
def leastMantissa : Nat := 0x10000000000000

/-- The bits to shift a quotient by so that its integer part has 53 bits. -/
def shiftOf (num den : Nat) : Int :=
  let guess : Int := 52 - (num.log2 - den.log2 : Int)
  let (n, d) := scale 2 guess num den
  if n < d * leastMantissa then guess + 1 else guess

/-- The number closest to a quotient; halfway it is the one with an even mantissa. -/
def ofRatio (num den : Nat) : Binary64 :=
  if num = 0 then ⟨0, 0⟩
  else
    let shift := shiftOf num den
    let (n, d) := scale 2 shift num den
    let mantissa := roundHalfEven n d
    if mantissa = 2 * leastMantissa then ⟨leastMantissa, 1 - shift⟩ else ⟨mantissa, -shift⟩

def ofNat (n : Nat) : Binary64 := ofRatio n 1

/-- The quotient of a number and an integer, rounded. -/
def divNat (x : Binary64) (n : Nat) : Binary64 :=
  let (num, den) := scale 2 x.exponent x.mantissa 1
  ofRatio num (den * n)

/-- Whether a decimal `digits * 10 ^ power` rounds to a number: it lies between the points halfway to
the neighbours, or on one of them if the mantissa is even. -/
def roundsTo (x : Binary64) (digits : Nat) (power : Int) : Bool :=
  let (dn, dd) := scale 10 power (4 * digits) 1
  let below := if x.mantissa = leastMantissa then 4 * x.mantissa - 1 else 4 * x.mantissa - 2
  let (ln, ld) := scale 2 x.exponent below 1
  let (hn, hd) := scale 2 x.exponent (4 * x.mantissa + 2) 1
  if x.mantissa % 2 = 0 then ln * dd ≤ dn * ld && dn * hd ≤ hn * dd
  else ln * dd < dn * ld && dn * hd < hn * dd

/-- The decimals with a given power that are closest to a number from below and from above, the closer
one first. -/
def neighbours (x : Binary64) (power : Int) : List Nat :=
  let (num, den) := scale 2 x.exponent x.mantissa 1
  let (n, d) := scale 10 (-power) num den
  let q := n / d
  if 2 * (n % d) ≤ d then [q, q + 1] else [q + 1, q]

/-- The first decimal that rounds to a number, over falling powers of ten. -/
def shortestFrom (x : Binary64) : Nat → Int → Nat × Int
  | 0, power => (0, power)
  | steps + 1, power =>
    match (neighbours x power).find? fun digits => 0 < digits && roundsTo x digits power with
    | some digits => (digits, power)
    | none => shortestFrom x steps (power - 1)

/-- The decimal with the fewest digits that rounds to a number, and of those the closest. Seventeen
digits are always enough. -/
def shortest (x : Binary64) : Nat × Int :=
  let top : Int := (x.mantissa.log2 + x.exponent) * 30103 / 100000 + 2
  shortestFrom x 24 top

/-- A decimal in positional notation, without an exponent. -/
def positional (digits : Nat) (power : Int) : String :=
  let text := (toString digits).toList
  if 0 ≤ power then String.ofList (text ++ List.replicate power.toNat '0')
  else
    let places := (-power).toNat
    let padded := List.replicate (places + 1 - text.length) '0' ++ text
    let whole := padded.length - places
    String.ofList (padded.take whole ++ '.' :: padded.drop whole)

def text (x : Binary64) : String :=
  if x.mantissa = 0 then "0"
  else
    let (digits, power) := x.shortest
    positional digits power

end Binary64

end Ldap.Number
