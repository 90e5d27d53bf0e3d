import Reckoner.Binary64

/-!
# Decimal numbers

A `Decimal` is a natural number times a power of ten. Its value is the fraction
`numerator / denominator`, and `toFloat` is the float nearest to that value.

`Decimal.shortest` gives the fewest digits that read back as a given magnitude and, among decimals
of that many digits, the one nearest to it. `Decimal.significant` rounds a magnitude to a given
number of digits. Both look at the multiples of a power of ten that lie next to the magnitude.
-/

namespace Reckoner

/-- The number `coefficient * 10 ^ exponent`. -/
structure Decimal where
  /-- The natural number that the digits spell. -/
  coefficient : Nat
  /-- The power of ten that it is multiplied by. -/
  exponent : Int
  deriving DecidableEq, Repr

/-- The decimal digits of a natural number, with no leading zero. -/
def decimalDigits (n : Nat) : List Char :=
  Nat.toDigits 10 n

namespace Decimal

/-- The numerator of a decimal as a fraction. -/
def numerator (d : Decimal) : Nat :=
  d.coefficient * 10 ^ d.exponent.toNat

/-- The denominator of a decimal as a fraction. -/
def denominator (d : Decimal) : Nat :=
  10 ^ (-d.exponent).toNat

/-- The magnitude in units of the float nearest to a decimal. -/
def nearestUnits (d : Decimal) : Nat :=
  Binary64.nearestUnits (d.numerator * Binary64.unitsInOne) d.denominator

/-- The float of the given sign that is nearest to a decimal. -/
def toFloat (negative : Bool) (d : Decimal) : Float :=
  Binary64.ofFraction negative d.numerator d.denominator

/-- The place of the decimal point, counted from in front of the first digit: a decimal whose
point is at `k` lies between `10 ^ (k - 1)`, included, and `10 ^ k`. -/
def point (d : Decimal) : Int :=
  (decimalDigits d.coefficient).length + d.exponent

/-! ### The digits of a float -/

open Binary64

/-- The exponent of a power of ten that lifts every positive magnitude above one. -/
def lift : Nat := 324

/-- The place of the decimal point of a magnitude: the `k` for which it lies between
`10 ^ (k - 1)`, included, and `10 ^ k`. A magnitude below one is lifted above one first. -/
def pointOfUnits (units : Nat) : Int :=
  if unitsInOne ≤ units then (decimalDigits (units / unitsInOne)).length
  else (decimalDigits (units * 10 ^ lift / unitsInOne)).length - lift

/-- The magnitude divided by `10 ^ exponent`, as a numerator and a denominator. -/
def scaled (units : Nat) (exponent : Int) : Nat × Nat :=
  (units * 10 ^ (-exponent).toNat, unitsInOne * 10 ^ exponent.toNat)

/-- The two multiples of `10 ^ exponent` next to a magnitude, the nearer one first. Of two equally
near ones the greater comes first. -/
def neighbours (units : Nat) (exponent : Int) : List Decimal :=
  let (n, d) := scaled units exponent
  let nearer := roundQuotient .up n d
  [⟨nearer, exponent⟩, ⟨2 * (n / d) + 1 - nearer, exponent⟩]

/-- All digits of a magnitude. -/
def exact (units : Nat) : Decimal :=
  ⟨units * 5 ^ (1074 : Nat), -1074⟩

/-- Every magnitude is told apart from all others by this many digits. -/
def enoughDigits : Nat := 17

/-- The decimal of fewest digits that reads back as the given positive magnitude, the nearest one
of them. Should no decimal of `enoughDigits` digits read back, all digits are given, so that the
result always does. -/
def shortest (units : Nat) : Decimal :=
  let top := pointOfUnits units
  let found := (List.range enoughDigits).findSome? fun (n : Nat) =>
    (neighbours units (top - (n + 1))).find? fun d => d.nearestUnits = units
  found.getD (exact units)

/-- The decimal of `count` digits nearest to a positive magnitude, a tie going to the even last
digit. -/
def significant (count : Nat) (units : Nat) : Decimal :=
  let exponent := pointOfUnits units - count
  let (n, d) := scaled units exponent
  ⟨roundQuotient .toEven n d, exponent⟩

end Decimal

end Reckoner
