import Patchwork.Number.Decimal

/-!
# Shortest decimal texts

A finite number is written with the fewest decimal digits that read back as
the same number; among those, the digits nearest to it.  The digits stand in
positional notation when the exponent of the first one is from -4 to 15, and
before an exponent of at least two digits otherwise.
-/

namespace Patchwork.Shortest

/-- How many times a fraction below one must be multiplied by ten to reach
one, at most `bound` times. -/
def stepsToOne : (bound : Nat) → (units : Nat) → Nat
  | 0, _ => 0
  | bound + 1, units =>
    if unitsPerOne ≤ units then 0 else stepsToOne bound (units * 10) + 1

/-- The exponent of the first decimal digit of a positive count of units. -/
def leadingExponent (units : Nat) : Int :=
  if unitsPerOne ≤ units then ((decimalDigits (units / unitsPerOne)).length : Int) - 1
  else -(stepsToOne 400 units : Int)

/-- The decimal on the grid of `10 ^ exponent` that reads back as the number
and is nearest to it; of two at the same distance, the even one. -/
def onGrid? (units : Nat) (exponent : Int) : Option Decimal :=
  let below : Nat :=
    if exponent < 0 then units * Nat.pow 10 exponent.natAbs / unitsPerOne
    else units / (unitsPerOne * Nat.pow 10 exponent.natAbs)
  let low : Decimal := ⟨below, exponent⟩
  let high : Decimal := ⟨below + 1, exponent⟩
  match low.units == units, high.units == units with
  | true, true =>
    if low.distance units < high.distance units then some low
    else if high.distance units < low.distance units then some high
    else some (if below % 2 = 0 then low else high)
  | true, false => some low
  | false, true => some high
  | false, false => none

/-- The shortest decimal that reads back as a positive count of units, found
on grids of one digit, two digits, and so on. -/
def decimalOf (units : Nat) : Decimal :=
  let first := leadingExponent units
  match (List.range 17).findSome? fun digits : Nat => onGrid? units (first - digits) with
  | some decimal => decimal.stripZeros 400
  | none => ⟨0, 0⟩

/-- The exponent after the digits: a sign and at least two digits. -/
def exponentText (exponent : Int) : List Char :=
  let digits := decimalDigits exponent.natAbs
  (if exponent < 0 then '-' else '+') ::
    (if digits.length < 2 then '0' :: digits else digits)

/-- The text of a decimal without sign: positional notation for the exponents
-4 to 15 of the first digit, with a point and a digit after it. -/
def positionalOrScientific (decimal : Decimal) : List Char :=
  let digits := decimalDigits decimal.digits
  let point : Int := digits.length + decimal.exponent
  if -4 < point ∧ point ≤ 16 then
    if point ≤ 0 then
      ['0', '.'] ++ List.replicate point.natAbs '0' ++ digits
    else if digits.length ≤ point.toNat then
      digits ++ List.replicate (point.toNat - digits.length) '0' ++ ['.', '0']
    else digits.take point.toNat ++ ['.'] ++ digits.drop point.toNat
  else
    match digits with
    | [] => []
    | [digit] => digit :: 'e' :: exponentText (point - 1)
    | digit :: rest => digit :: '.' :: rest ++ 'e' :: exponentText (point - 1)

/-- The text of a floating-point number. -/
def text : Binary64 → String
  | .nan _ => "nan"
  | .infinite negative => if negative then "-inf" else "inf"
  | .finite negative units _ =>
    let body := if units = 0 then ['0', '.', '0'] else positionalOrScientific (decimalOf units)
    String.ofList (if negative then '-' :: body else body)

end Patchwork.Shortest
