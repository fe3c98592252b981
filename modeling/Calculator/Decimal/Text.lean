import Calculator.Decimal.Shortest

/-!
The text of a number.

A whole number is written with all its digits, however many, and any other finite number as the
shortest decimal that reads back, with at least one digit on either side of the point and never an
exponent. Zero is written without a sign, whatever its sign is.
-/
namespace Calculator

-- Powers of natural numbers are those of the core library, whatever else a module imports.
attribute [local instance (high)] instPowNat

namespace Decimal

/-- The digits of a count below `10 ^ places`, filled up with leading zeros to that many. -/
def placeDigits (count places : Nat) : List Char := (Nat.toDigits 10 count).leftpad places '0'

/-- A decimal as it is written: the whole part, the point, and a digit for every place. -/
def text (decimal : Decimal) : String :=
  Nat.repr (decimal.count / 10 ^ decimal.places) ++ "." ++
    String.ofList (placeDigits (decimal.count % 10 ^ decimal.places) decimal.places)

end Decimal

namespace Binary64

/-- The text of a magnitude that is not zero and not above infinity, without a sign. -/
def sizeText (x : Binary64) : String :=
  if x.isInfinite then "inf"
  else if x.isIntegral then Nat.repr (units x.magnitude / unitsPerOne)
  else (Decimal.shortest x.magnitude).text

def text (x : Binary64) : String :=
  if x.isNaN then "nan"
  else if x.isZero then "0"
  else if x.negative then "-" ++ x.sizeText
  else x.sizeText

end Binary64
end Calculator
