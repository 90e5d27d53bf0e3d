import Reckoner.Decimal.Layout
import Reckoner.Decimal.Numeral
import Reckoner.Token.Basic

/-!
# Numbers

What can be done with a float: it is written as text and read back, rounded to a whole number,
divided with a remainder, turned into a 32-bit word, or given to a named function. All but the
named functions are exact operations on units.
-/

namespace Reckoner

namespace Number

open Binary64

/-! ### Text -/

/-- Values are written with the fewest digits that read back: with a decimal point from `0.0001` up
to, but not including, `10 ^ 16`, and with an exponent of ten otherwise. -/
def layout : Layout := ⟨none, some (-4, 16)⟩

/-- Values rounded to `count` significant digits, always with an exponent of ten. -/
def roundedLayout (count : Nat) : Layout := ⟨some count, none⟩

/-- The text of a value. -/
def text (x : Float) : String :=
  layout.write x

/-- The value of a text that is a numeral. -/
def read? (text : String) : Option Float :=
  (Numeral.ofChars? text.toList).map Numeral.toFloat

/-! ### Whole numbers and remainders

A result of zero keeps the sign of the operand. -/

/-- Replaces the magnitude of a finite number by the whole number that `wholePart` makes of its
sign and its units. Other values stay. -/
def mapWhole (wholePart : Bool → Nat → Nat) (x : Float) : Float :=
  match parts x with
  | .finite negative units => ofFraction negative (wholePart negative units) 1
  | _ => x

/-- The number of ones in `units`, a part of a one counted as one more if `up` holds. -/
def wholeUnits (up : Bool) (units : Nat) : Nat :=
  units / unitsInOne + if up ∧ units % unitsInOne ≠ 0 then 1 else 0

/-- The greatest whole number that is not above `x`. -/
def floor : Float → Float :=
  mapWhole fun negative units => wholeUnits negative units

/-- The least whole number that is not below `x`. -/
def ceil : Float → Float :=
  mapWhole fun negative units => wholeUnits (!negative) units

/-- The whole number nearest to `x`, a half going to the even neighbour. -/
def round : Float → Float :=
  mapWhole fun _ units => roundQuotient .toEven units unitsInOne

/-- The remainder of `x` by `y`: what is left of `x` after taking away as many whole multiples of
`y` as fit, with the sign of `x`. -/
def remainder (x y : Float) : Float :=
  match parts x, parts y with
  | .finite negative units, .finite _ divisor =>
    if divisor = 0 then nan else ofFraction negative (units % divisor) unitsInOne
  | .finite _ _, .infinite _ => x
  | _, _ => nan

/-! ### 32-bit words

The operators on bits work on 32-bit two's complement words. Every word is a float exactly. -/

/-- The word nearest to `x` truncated toward zero. What is not a number becomes zero. -/
def toWord (x : Float) : Int32 :=
  match parts x with
  | .nan => 0
  | .infinite negative => if negative then Int32.minValue else Int32.maxValue
  | .finite true units => Int32.ofInt (-(min (units / unitsInOne) (2 ^ (31 : Nat)) : Nat))
  | .finite false units => Int32.ofInt (min (units / unitsInOne) (2 ^ (31 : Nat) - 1) : Nat)

/-- The float that a word is. -/
def ofWord (word : Int32) : Float :=
  ofFraction (decide (word.toInt < 0)) word.toInt.natAbs 1

/-! ### Named functions

Outside its domain a function gives an infinity or no number; none fails. -/

/-- The natural logarithm of `1 + x`, accurate also near zero: the error of rounding `1 + x` is made
good by the factor by which that sum misses `x`. The formula is this library's own, and what it
gives may be a unit in the last place away from what other libraries give. -/
def logOnePlus (x : Float) : Float :=
  let sum := 1 + x
  if sum == 1 then x
  else if sum.isInf then sum.log
  else sum.log * (x / (sum - 1))

/-- The inverse hyperbolic tangent, `log (1 + 2 x / (1 - x)) / 2`. As `logOnePlus` may be, it may be
a unit in the last place away from what other libraries give. -/
def atanh (x : Float) : Float :=
  0.5 * logOnePlus (2 * x / (1 - x))

end Number

/-- The value of a function at `x`. -/
def Function.apply : Function → Float → Float
  | .abs => Float.abs
  | .sqrt => Float.sqrt
  | .exp => Float.exp
  | .ln => Float.log
  | .log => Float.log10
  | .sin => Float.sin
  | .cos => Float.cos
  | .tan => Float.tan
  | .acos => Float.acos
  | .acosh => Float.acosh
  | .asin => Float.asin
  | .asinh => Float.asinh
  | .atan => Float.atan
  | .atanh => Number.atanh
  | .cosh => Float.cosh
  | .sinh => Float.sinh
  | .tanh => Float.tanh
  | .ceil => Number.ceil
  | .floor => Number.floor
  | .round => Number.round

end Reckoner
