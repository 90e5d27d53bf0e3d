import Reckoner.Decimal.Basic

/-!
# Reading numerals

A numeral is an optional sign followed by `nan`, `inf` or `infinity` in any case, or by digits with
at most one decimal point among them and an optional exponent of ten. At least one digit is needed
in front of the exponent and one in it; blanks and digit separators are refused.
`Numeral.ofChars?` reads such a text as a whole and `Numeral.toFloat` is the float nearest to it.
-/

namespace Reckoner

/-- What a numeral says. -/
inductive Numeral where
  /-- Not a number. -/
  | nan
  /-- An infinity of the given sign. -/
  | infinite (negative : Bool)
  /-- A sign and a decimal number. -/
  | decimal (negative : Bool) (magnitude : Decimal)
  deriving DecidableEq, Repr

/-- The natural number that decimal digits spell. -/
def natOfDigits (digits : List Char) : Nat :=
  digits.foldl (fun n c => 10 * n + (c.toNat - '0'.toNat)) 0

namespace Numeral

/-- Whether a minus sign leads, and what follows the sign, if there is one. -/
def splitSign : List Char → Bool × List Char
  | '-' :: rest => (true, rest)
  | '+' :: rest => (false, rest)
  | chars => (false, chars)

/-- The exponent that ends a numeral: nothing, or an `e` in either case, an optional sign and at
least one digit. -/
def exponent? : List Char → Option Int
  | [] => some 0
  | mark :: rest =>
    let (negative, digits) := splitSign rest
    if mark.toLower = 'e' ∧ digits ≠ [] ∧ digits.all Char.isDigit then
      let size : Int := natOfDigits digits
      some (if negative then -size else size)
    else none

/-- The exponent brought into a range that depends on the number of digits in front of it. Beyond
that range every number is nearest to zero or to infinity, however large its exponent is. -/
def clampExponent (digitCount : Nat) (exponent : Int) : Int :=
  let bound : Int := digitCount + 400
  max (-bound) (min bound exponent)

/-- The decimal spelled by digits, an optional point and an optional exponent. -/
def magnitude? (chars : List Char) : Option Decimal :=
  let whole := chars.takeWhile Char.isDigit
  let (fraction, tail) :=
    match chars.dropWhile Char.isDigit with
    | '.' :: rest => (rest.takeWhile Char.isDigit, rest.dropWhile Char.isDigit)
    | rest => ([], rest)
  let digits := whole ++ fraction
  if digits.isEmpty then none
  else
    (exponent? tail).map fun exponent =>
      ⟨natOfDigits digits, clampExponent digits.length exponent - fraction.length⟩

/-- The numeral that the characters of a text spell, if they spell one. -/
def ofChars? (chars : List Char) : Option Numeral :=
  let (negative, rest) := splitSign chars
  let word := String.ofList (rest.map Char.toLower)
  if word = "nan" then some .nan
  else if word = "inf" ∨ word = "infinity" then some (.infinite negative)
  else (magnitude? rest).map (.decimal negative)

/-- The float nearest to what a numeral says. -/
def toFloat : Numeral → Float
  | .nan => Binary64.nan
  | .infinite negative => Binary64.infinity negative
  | .decimal negative magnitude => magnitude.toFloat negative

end Numeral

end Reckoner
