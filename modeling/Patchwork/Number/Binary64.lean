/-!
# Floating-point numbers of 64 bits

Every finite number of the format is a whole multiple of the least positive
one, `2 ^ (-1074)`.  A number is therefore kept as a sign and a count of these
units, and every operation is one exact operation on integers followed by one
rounding to the nearest representable count, ties to even.

A number that is not one (`nan`) carries a mark that tells apart the
occasions on which it arose; zero is the mark of one that has not been told
apart yet.
-/

namespace Patchwork

/-- How many units make one. -/
def unitsPerOne : Nat := Nat.pow 2 1074

/-- How many bits of a count matter. -/
def significantBits : Nat := 53

/-- The first count of units that is too large. -/
def unitsLimit : Nat := Nat.pow 2 2098

/-- The quotient rounded to the nearest natural number, ties to even. -/
def roundQuotient (numerator denominator : Nat) : Nat :=
  let quotient := numerator / denominator
  let remainder := numerator % denominator
  if 2 * remainder < denominator then quotient
  else if denominator < 2 * remainder then quotient + 1
  else quotient + quotient % 2

/-- How many low bits of a count of units are rounded away. -/
def droppedBits (units : Nat) : Nat :=
  units.log2 + 1 - significantBits

/-- The quotient rounded to the nearest count of units with at most 53
significant bits, ties to even. -/
def roundUnits (numerator denominator : Nat) : Nat :=
  let spacing := Nat.pow 2 (droppedBits (numerator / denominator))
  roundQuotient numerator (denominator * spacing) * spacing

/-- Whether a count of units is that of a finite number. -/
def fitsUnits (units : Nat) : Bool :=
  units % Nat.pow 2 (droppedBits units) == 0 && decide (units < unitsLimit)

/-- A floating-point number. -/
inductive Binary64
  | finite (negative : Bool) (units : Nat) (fits : fitsUnits units = true)
  | infinite (negative : Bool)
  | nan (mark : Nat)
  deriving DecidableEq

namespace Binary64

/-- The mark of `nan` in documents: reading it is one occasion, however often it
is read. -/
def documentMark : Nat := 1

/-- The number with a sign and a rounded count of units; a count that is too
large gives an infinity. -/
def ofUnits (negative : Bool) (units : Nat) : Binary64 :=
  if fits : fitsUnits units = true then .finite negative units fits
  else .infinite negative

/-- The number nearest to a quotient. -/
def ofRatio (negative : Bool) (numerator denominator : Nat) : Binary64 :=
  ofUnits negative (roundUnits (numerator * unitsPerOne) denominator)

/-- Positive zero. -/
def zero : Binary64 := ofUnits false 0

instance : Inhabited Binary64 := ⟨zero⟩

/-- The number, unless it is infinite. -/
def bounded? : Binary64 → Option Binary64
  | .infinite _ => none
  | number => some number

/-- The number nearest to an integer, unless it would be infinite. -/
def ofInt? (number : Int) : Option Binary64 :=
  (ofRatio (number < 0) number.natAbs 1).bounded?

/-- The sign and the count of units as one integer. -/
def signedUnits (negative : Bool) (units : Nat) : Int :=
  if negative then -(units : Int) else units

/-- Neither infinite nor `nan`. -/
def isFinite : Binary64 → Bool
  | .finite .. => true
  | _ => false

/-- Not a number. -/
def isNan : Binary64 → Bool
  | .nan _ => true
  | _ => false

/-- Finite and without a fraction. -/
def isWhole : Binary64 → Bool
  | .finite _ units _ => units % unitsPerOne == 0
  | _ => false

/-- Either zero. -/
def isZero : Binary64 → Bool
  | .finite _ units _ => units == 0
  | _ => false

/-- The number with the other sign. -/
def negate : Binary64 → Binary64
  | .finite negative units fits => .finite (!negative) units fits
  | .infinite negative => .infinite (!negative)
  | .nan _ => .nan 0

/-- The number without its sign. -/
def magnitude : Binary64 → Binary64
  | .finite _ units fits => .finite false units fits
  | .infinite _ => .infinite false
  | .nan mark => .nan mark

/-- The sum.  Two numbers that cancel give positive zero, and two negative
zeros a negative one. -/
def add : Binary64 → Binary64 → Binary64
  | .nan _, _ => .nan 0
  | _, .nan _ => .nan 0
  | .infinite left, .infinite right => if left == right then .infinite left else .nan 0
  | .infinite left, .finite .. => .infinite left
  | .finite .., .infinite right => .infinite right
  | .finite leftSign leftUnits _, .finite rightSign rightUnits _ =>
    let total := signedUnits leftSign leftUnits + signedUnits rightSign rightUnits
    if total = 0 then ofUnits (leftSign && rightSign) 0
    else ofUnits (decide (total < 0)) (roundUnits total.natAbs 1)

/-- The difference. -/
def subtract (left right : Binary64) : Binary64 :=
  add left right.negate

/-- The product. -/
def multiply : Binary64 → Binary64 → Binary64
  | .nan _, _ => .nan 0
  | _, .nan _ => .nan 0
  | .infinite left, .infinite right => .infinite (left != right)
  | .infinite left, .finite right units _ =>
    if units = 0 then .nan 0 else .infinite (left != right)
  | .finite left units _, .infinite right =>
    if units = 0 then .nan 0 else .infinite (left != right)
  | .finite left leftUnits _, .finite right rightUnits _ =>
    ofUnits (left != right) (roundUnits (leftUnits * rightUnits) unitsPerOne)

/-- The quotient; a zero divisor gives an infinity or `nan`. -/
def divide : Binary64 → Binary64 → Binary64
  | .nan _, _ => .nan 0
  | _, .nan _ => .nan 0
  | .infinite _, .infinite _ => .nan 0
  | .infinite left, .finite right _ _ => .infinite (left != right)
  | .finite left _ _, .infinite right => ofUnits (left != right) 0
  | .finite left leftUnits _, .finite right rightUnits _ =>
    if rightUnits = 0 then
      if leftUnits = 0 then .nan 0 else .infinite (left != right)
    else ofRatio (left != right) leftUnits rightUnits

/-- The remainder of the division truncated toward zero, exact and with the
sign of the dividend.  It is not defined for an infinite dividend. -/
def remainder? : Binary64 → Binary64 → Option Binary64
  | .nan _, _ => some (.nan 0)
  | _, .nan _ => some (.nan 0)
  | .infinite _, _ => none
  | .finite left units fits, .infinite _ => some (.finite left units fits)
  | .finite left leftUnits _, .finite _ rightUnits _ =>
    if rightUnits = 0 then none else some (ofUnits left (leftUnits % rightUnits))

/-- Strictly less; never so when one side is `nan`. -/
def less : Binary64 → Binary64 → Bool
  | .nan _, _ => false
  | _, .nan _ => false
  | .infinite left, .infinite right => left && !right
  | .infinite left, .finite .. => left
  | .finite .., .infinite right => !right
  | .finite leftSign leftUnits _, .finite rightSign rightUnits _ =>
    decide (signedUnits leftSign leftUnits < signedUnits rightSign rightUnits)

/-- Equal as numbers: the two zeros are, and `nan` never is. -/
def equals : Binary64 → Binary64 → Bool
  | .infinite left, .infinite right => left == right
  | .finite leftSign leftUnits _, .finite rightSign rightUnits _ =>
    decide (signedUnits leftSign leftUnits = signedUnits rightSign rightUnits)
  | _, _ => false

/-- Less or equal; never so when one side is `nan`. -/
def atMost (left right : Binary64) : Bool :=
  less left right || equals left right

/-- Equal as numbers, or the same occurrence of `nan`. -/
def same : Binary64 → Binary64 → Bool
  | .nan left, .nan right => left == right
  | left, right => equals left right

/-- The integer part of a finite number. -/
def truncate? : Binary64 → Option Int
  | .finite negative units _ => some (signedUnits negative (units / unitsPerOne))
  | _ => none

/-- The nearest integer to a finite number, ties to even. -/
def round? : Binary64 → Option Int
  | .finite negative units _ =>
    some (signedUnits negative (roundQuotient units unitsPerOne))
  | _ => none

@[simp]
theorem same_refl (number : Binary64) : same number number = true := by
  cases number <;> simp [same, equals]

@[simp]
theorem isFinite_negate (number : Binary64) : number.negate.isFinite = number.isFinite := by
  cases number <;> rfl

@[simp]
theorem less_irrefl (number : Binary64) : less number number = false := by
  cases number <;> simp [less]

end Binary64

end Patchwork
