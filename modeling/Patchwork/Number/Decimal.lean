import Patchwork.Number.Binary64

/-!
# Decimal numbers

Whole numbers and powers of ten as texts are written and read with them, and
their exact value as a floating-point number.
-/

namespace Patchwork

/-- The decimal digits of a natural number, most significant first. -/
def decimalDigits (number : Nat) : List Char :=
  Nat.toDigits 10 number

/-- The text of an integer. -/
def integerText (number : Int) : String :=
  if number < 0 then "-" ++ String.ofList (decimalDigits number.natAbs)
  else String.ofList (decimalDigits number.natAbs)

/-- A decimal number `digits * 10 ^ exponent`. -/
structure Decimal where
  digits : Nat
  exponent : Int
  deriving DecidableEq, Repr

namespace Decimal

/-- The decimal as a quotient of two natural numbers. -/
def ratio (decimal : Decimal) : Nat × Nat :=
  if decimal.exponent < 0 then (decimal.digits, Nat.pow 10 decimal.exponent.natAbs)
  else (decimal.digits * Nat.pow 10 decimal.exponent.natAbs, 1)

/-- The count of units nearest to the decimal. -/
def units (decimal : Decimal) : Nat :=
  roundUnits (decimal.ratio.1 * unitsPerOne) decimal.ratio.2

/-- The distance of the decimal from a count of units, as a multiple of
`unitsPerOne` that has the decimal's denominator divided out. -/
def distance (decimal : Decimal) (units : Nat) : Nat :=
  ((decimal.ratio.1 * unitsPerOne : Nat) - (units * decimal.ratio.2 : Nat) : Int).natAbs

/-- The decimal without zeros at the end of its digits, at most `bound` of
them. -/
def stripZeros : (bound : Nat) → Decimal → Decimal
  | 0, decimal => decimal
  | bound + 1, decimal =>
    if decimal.digits % 10 = 0 ∧ decimal.digits ≠ 0 then
      stripZeros bound ⟨decimal.digits / 10, decimal.exponent + 1⟩
    else decimal

/-- The floating-point number nearest to the decimal.  Far outside the range of
the format the result is known without computing the power of ten. -/
def toBinary64 (negative : Bool) (decimal : Decimal) : Binary64 :=
  let size : Int := (decimalDigits decimal.digits).length + decimal.exponent
  if decimal.digits = 0 ∨ size < -400 then .ofUnits negative 0
  else if 400 < size then .infinite negative
  else .ofUnits negative decimal.units

end Decimal

end Patchwork
