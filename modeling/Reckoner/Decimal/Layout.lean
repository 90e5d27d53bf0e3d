import Reckoner.Decimal.Basic

/-!
# Writing floats

A `Layout` holds the decisions of one way to write floats: how many digits, and for which sizes the
decimal point stands at its place among the digits. Other sizes are written with an exponent of ten.
-/

namespace Reckoner

/-- The decisions of one way to write floats. -/
structure Layout where
  /-- The number of digits, or `none` for the fewest that read back. -/
  digits : Option Nat
  /-- The exponents of the power of ten from which on, and of the one below which, numbers are
  written without an exponent, as zero is then. If there are none, all numbers have an exponent. -/
  plain : Option (Int × Int)
  deriving DecidableEq, Repr

/-- Whether a magnitude is `10 ^ exponent` or more. -/
def atLeastPower (exponent : Int) (units : Nat) : Bool :=
  let (n, d) := Decimal.scaled units exponent
  d ≤ n

/-- The digits without the zeros at their end. At least one digit is kept. -/
def dropTrailingZeros (digits : List Char) : List Char :=
  match (digits.reverse.dropWhile (· == '0')).reverse with
  | [] => ['0']
  | kept => kept

/-- Digits with the decimal point at a given place. A digit stands on both sides of the point. -/
def positional (digits : List Char) (point : Int) : List Char :=
  if point ≤ 0 then
    '0' :: '.' :: (List.replicate (-point).toNat '0' ++ digits)
  else
    let whole := point.toNat
    let fraction := digits.drop whole
    digits.take whole ++ List.replicate (whole - digits.length) '0'
      ++ '.' :: (if fraction.isEmpty then ['0'] else fraction)

/-- Digits with the decimal point after the first of them, if others follow, and an exponent. -/
def scientific (digits : List Char) (exponent : Int) : List Char :=
  match digits with
  | [] => []
  | [digit] => digit :: 'e' :: (toString exponent).toList
  | digit :: fraction => digit :: '.' :: (fraction ++ 'e' :: (toString exponent).toList)

namespace Layout

/-- The decimal that stands for a magnitude, zero included. -/
def decimal (layout : Layout) (units : Nat) : Decimal :=
  if units = 0 then ⟨0, 0⟩
  else
    match layout.digits with
    | none => .shortest units
    | some count => .significant count units

/-- The digits that are written for a decimal. One that was rounded up to a power of ten has a zero
too many, which is left out. -/
def written (layout : Layout) (d : Decimal) : List Char :=
  match layout.digits with
  | none => dropTrailingZeros (decimalDigits d.coefficient)
  | some count =>
    let digits := decimalDigits d.coefficient
    digits.take count ++ List.replicate (count - digits.length) '0'

/-- Whether a magnitude is written without an exponent. -/
def isPlain (layout : Layout) (units : Nat) : Bool :=
  match layout.plain with
  | none => false
  | some (low, high) => units == 0 || (atLeastPower low units && !atLeastPower high units)

/-- The text of a magnitude. -/
def magnitude (layout : Layout) (units : Nat) : List Char :=
  let d := layout.decimal units
  let digits := layout.written d
  if layout.isPlain units then positional digits d.point else scientific digits (d.point - 1)

/-- The sign in front of a magnitude: a minus sign or nothing. -/
def sign (negative : Bool) : List Char :=
  if negative then ['-'] else []

/-- The characters of the text of a float. -/
def chars (layout : Layout) (x : Float) : List Char :=
  match Binary64.parts x with
  | .nan => "NaN".toList
  | .infinite negative => sign negative ++ "inf".toList
  | .finite negative units => sign negative ++ layout.magnitude units

/-- The text of a float. -/
def write (layout : Layout) (x : Float) : String :=
  String.ofList (layout.chars x)

end Layout

end Reckoner
