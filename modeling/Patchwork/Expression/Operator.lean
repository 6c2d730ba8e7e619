import Patchwork.Expression.Coercion

/-!
# Operators

The meaning of the operators.  Arithmetic on integers stays exact; a quotient
is an integer when the division leaves no remainder.  Numbers that are not both
integers are equal when they are less than `10 ^ (-9)` apart.
-/

namespace Patchwork

/-- The largest distance at which numbers are no longer equal. -/
def equalityTolerance : Binary64 :=
  .ofRatio false 1 (Nat.pow 10 9)

/-- The remainder of the division truncated toward zero. -/
def truncatedRemainder (numerator denominator : Int) : Int :=
  Int.tmod numerator denominator

/-- The quotient of two integers, rounded once. -/
def integerQuotient (numerator denominator : Int) : Except NumberFault Binary64 :=
  (Binary64.ofRatio (decide (numerator < 0) != decide (denominator < 0))
    numerator.natAbs denominator.natAbs).bounded?.elim (.error .quotientTooLarge) .ok

namespace BinaryOperator

/-- What a logical operator makes of its left operand alone, or `none` if the
right one is needed. -/
def decided? : BinaryOperator → Bool → Option Bool
  | .and, false => some false
  | .or, true => some true
  | _, _ => none

variable (labels : Labels)

/-- Arithmetic on integers if both operands are exact, otherwise on
floating-point numbers. -/
def arithmetic (onIntegers : Int → Int → Int) (onFloats : Binary64 → Binary64 → Binary64)
    (left right : Value) : Except Fault Value := do
  if left.isFloatLike || right.isFloatLike then
    return .float (onFloats (← left.toFloat labels) (← right.toFloat labels))
  else
    return .integer (onIntegers (← left.toInteger labels) (← right.toInteger labels))

/-- The sum, or the two texts together when one operand is a string. -/
def add (left right : Value) : Except Fault Value :=
  match left, right with
  | .string text, other => .ok (.string (text ++ other.display labels))
  | other, .string text => .ok (.string (other.display labels ++ text))
  | left, right => arithmetic labels (· + ·) Binary64.add left right

/-- The quotient. -/
def divide (left right : Value) : Except Fault Value := do
  if left.isIntegerLike && right.isIntegerLike then
    let numerator ← left.toInteger labels
    let denominator ← right.toInteger labels
    if denominator = 0 then throw (.evaluation .divisionByZero)
    else if numerator % denominator = 0 then return .integer (numerator / denominator)
    else
      match integerQuotient numerator denominator with
      | .ok quotient => return .float quotient
      | .error fault => throw (.number fault)
  else
    let denominator ← right.toFloat labels
    if denominator.isZero then throw (.evaluation .divisionByZero)
    else return .float ((← left.toFloat labels).divide denominator)

/-- The remainder, with the sign of the dividend. -/
def remainder (left right : Value) : Except Fault Value := do
  if left.isIntegerLike && right.isIntegerLike then
    let numerator ← left.toInteger labels
    let denominator ← right.toInteger labels
    if denominator = 0 then throw (.evaluation .moduloByZero)
    else return .integer (truncatedRemainder numerator denominator)
  else
    let denominator ← right.toFloat labels
    if denominator.isZero then throw (.evaluation .moduloByZero)
    else
      match (← left.toFloat labels).remainder? denominator with
      | none => throw (.number .outsideDomain)
      | some number =>
        match truncateToInteger number with
        | .ok whole => return .integer whole
        | .error fault => throw (.number fault)

/-- Whether two values are equal: as integers, as numbers up to the tolerance,
or as the same value. -/
def equals (left right : Value) : Except Fault Bool := do
  match left, right with
  | .null, .null => return true
  | .null, _ => return false
  | _, .null => return false
  | left, right =>
    if left.isIntegerLike && right.isIntegerLike then
      return decide ((← left.toInteger labels) = (← right.toInteger labels))
    else if left.isNumericLike && right.isNumericLike then
      let difference := (← left.toFloat labels).subtract (← right.toFloat labels)
      return difference.magnitude.less equalityTolerance
    else return left.same right

/-- A comparison of two values as floating-point numbers. -/
def compare (holds : Binary64 → Binary64 → Bool) (left right : Value) : Except Fault Value :=
  do return .boolean (holds (← left.toFloat labels) (← right.toFloat labels))

/-- The result of an operator on two values, before faults about numbers are
put down to the operator. -/
def result (operator : BinaryOperator) (left right : Value) : Except Fault Value :=
  match operator with
  | .plus => add labels left right
  | .minus => arithmetic labels (· - ·) Binary64.subtract left right
  | .times => arithmetic labels (· * ·) Binary64.multiply left right
  | .divided => divide labels left right
  | .modulo => remainder labels left right
  | .equal => (equals labels left right).map .boolean
  | .notEqual => (equals labels left right).map fun same => .boolean !same
  | .greater => compare labels (fun left right => right.less left) left right
  | .less => compare labels Binary64.less left right
  | .atLeast => compare labels (fun left right => right.atMost left) left right
  | .atMost => compare labels Binary64.atMost left right
  | .or | .and => do
    match operator.decided? (← left.toBoolean labels) with
    | some flag => return .boolean flag
    | none => return .boolean (← right.toBoolean labels)

/-- The result of an operator on two values. -/
def apply (operator : BinaryOperator) (left right : Value) : Except Fault Value :=
  match operator.result labels left right with
  | .error (.number cause) =>
    .error (.evaluation
      (.cannotApply operator.symbol (left.summary labels) (right.summary labels) cause))
  | outcome => outcome

/-- The result of the operator written in a given way, which may not be a
logical one. -/
def applySymbol (symbol : String) (left right : Value) : Except Fault Value :=
  match ofSymbol? symbol with
  | some operator =>
    if operator.isLogical then .error (.evaluation (.unknownBinary symbol))
    else operator.apply labels left right
  | none => .error (.evaluation (.unknownBinary symbol))

end BinaryOperator

namespace UnaryOperator

/-- The result of an operator on a value. -/
def apply (labels : Labels) (operator : UnaryOperator) (operand : Value) :
    Except Fault Value :=
  match operator with
  | .negative =>
    match operand with
    | .integer number => .ok (.integer (-number))
    | value => do return .float (← value.toFloat labels).negate
  | .not => do return .boolean !(← operand.toBoolean labels)

/-- The result of the operator written in a given way. -/
def applySymbol (labels : Labels) (symbol : String) (operand : Value) : Except Fault Value :=
  match ofSymbol? symbol with
  | some operator => operator.apply labels operand
  | none => .error (.evaluation (.unknownUnary symbol))

end UnaryOperator

end Patchwork
