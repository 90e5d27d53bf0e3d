/-!
# Floats as exact numbers

Every finite binary64 number is a sign and a whole number of *units* of `2 ^ (-1074)`, the smallest
positive one. `parts` reads a float in these terms and `ofFraction` goes back: it gives the float
nearest to a fraction, a tie going to the even significand. All that this library computes exactly
(digits, whole parts, remainders, 32-bit words) is computed on units, in natural numbers, and
rounded there: `roundQuotient tie n d` is the natural number nearest to `n / d`, where `tie` says
what becomes of a quotient halfway between two natural numbers.
-/

namespace Reckoner

/-- Where a quotient goes that lies halfway between two natural numbers. -/
inductive Tie where
  /-- To the even one of the two. -/
  | toEven
  /-- To the greater one. -/
  | up
  deriving DecidableEq, Repr

/-- The natural number nearest to `n / d`, a tie going as `tie` says. -/
def roundQuotient (tie : Tie) (n d : Nat) : Nat :=
  let below := n / d
  let left := n % d
  if 2 * left < d then below
  else if d < 2 * left then below + 1
  else
    match tie with
    | .toEven => below + below % 2
    | .up => below + 1

namespace Binary64

/-- Powers of natural numbers are the built-in ones, whatever else is in scope. -/
instance (priority := 2000) naturalPower : Pow Nat Nat := instPowNat

/-- A float taken apart. -/
inductive Parts where
  /-- Not a number. -/
  | nan
  /-- An infinity of the given sign. -/
  | infinite (negative : Bool)
  /-- A finite number: its sign, and its magnitude in units. -/
  | finite (negative : Bool) (units : Nat)
  deriving DecidableEq, Repr

/-- The number of units in the number one. -/
def unitsInOne : Nat := 2 ^ (1074 : Nat)

/-- The number of bits of a significand that are stored. -/
def storedBits : Nat := 52

/-- The exponent field shared by the infinities and the values that are no numbers. -/
def specialField : Nat := 2047

/-- What the bits of a float say. -/
def parts (x : Float) : Parts :=
  let bits := x.toBits.toNat
  let negative := decide (2 ^ (63 : Nat) ≤ bits)
  let field := bits % 2 ^ (63 : Nat) / 2 ^ storedBits
  let fraction := bits % 2 ^ storedBits
  if field = specialField then
    if fraction = 0 then .infinite negative else .nan
  else if field = 0 then .finite negative fraction
  else .finite negative ((2 ^ storedBits + fraction) * 2 ^ (field - 1))

/-- The binary logarithm of the distance, in units, between floats of the size of `units`. -/
def spacing (units : Nat) : Nat :=
  units.log2 - storedBits

/-- The magnitude nearest to `n / d` units that a significand of 53 bits can hold, a tie going to
the even significand. It has no upper bound: `pack` deals with overflow. -/
def nearestUnits (n d : Nat) : Nat :=
  let step := 2 ^ spacing (n / d)
  roundQuotient .toEven n (d * step) * step

/-- The float with the given sign bit and the given bits below it. -/
def ofBits (negative : Bool) (magnitude : Nat) : Float :=
  Float.ofBits (UInt64.ofNat ((if negative then 2 ^ (63 : Nat) else 0) + magnitude))

/-- The bits of an infinity, below its sign. -/
def infinityBits : Nat := specialField * 2 ^ storedBits

/-- The infinity of the given sign. -/
def infinity (negative : Bool) : Float :=
  ofBits negative infinityBits

/-- The float that is not a number. -/
def nan : Float :=
  ofBits false (infinityBits + 2 ^ (storedBits - 1))

/-- The float of the given sign whose magnitude is `units`, which a significand of 53 bits can
hold, or the infinity of that sign if the magnitude is out of range. The exponent field of a normal
number is one more than its spacing, and the leading bit of its significand adds that one. -/
def pack (negative : Bool) (units : Nat) : Float :=
  let magnitude := spacing units * 2 ^ storedBits + units / 2 ^ spacing units
  ofBits negative (min magnitude infinityBits)

/-- The float of the given sign that is nearest to `n / d`, a tie going to the even significand. -/
def ofFraction (negative : Bool) (n d : Nat) : Float :=
  pack negative (nearestUnits (n * unitsInOne) d)

end Binary64

end Reckoner
