import Patchwork.Expression.Display
import Patchwork.Fault

/-!
# Coercions

Operators and built-ins accept values of more than one kind.  A text counts as
the number it reads as, a decimal comma included; whole floating-point numbers
count as integers.
-/

namespace Patchwork

/-- The integer a text reads as. -/
def integerOfText? (text : String) : Option Int :=
  Numeral.integer? (Text.trim text)

/-- The floating-point number a text reads as. -/
def floatOfText? (text : String) : Option Binary64 :=
  Numeral.float? (Text.commasToPoints (Text.trim text))

/-- The integer next to a floating-point number; there is none next to an
infinity or to `nan`. -/
def roundToInteger : Binary64 → Except NumberFault Int
  | .finite negative units fits =>
    .ok (((Binary64.finite negative units fits).round?).getD 0)
  | .infinite _ => .error .infinityToInteger
  | .nan _ => .error .nanToInteger

/-- The integer part of a floating-point number. -/
def truncateToInteger : Binary64 → Except NumberFault Int
  | .finite negative units fits =>
    .ok (((Binary64.finite negative units fits).truncate?).getD 0)
  | .infinite _ => .error .infinityToInteger
  | .nan _ => .error .nanToInteger

namespace Value

/-- The value of a number: an integer when it is whole. -/
def ofNumber (number : Binary64) : Value :=
  match number.isWhole, number.truncate? with
  | true, some whole => .integer whole
  | _, _ => .float number

/-- An integer, a whole floating-point number or a text that reads as an
integer. -/
def isIntegerLike : Value → Bool
  | .integer _ => true
  | .float number => number.isWhole
  | .string text => (integerOfText? text).isSome
  | _ => false

/-- A floating-point number or a text that reads as one. -/
def isFloatLike : Value → Bool
  | .float _ => true
  | .string text => (floatOfText? text).isSome
  | _ => false

/-- A number or a text that reads as one. -/
def isNumericLike : Value → Bool
  | .integer _ => true
  | value => value.isFloatLike

/-- The value as a floating-point number. -/
def toFloat (labels : Labels) : Value → Except Fault Binary64
  | .integer number =>
    (Binary64.ofInt? number).elim (.error (.number .integerTooLarge)) .ok
  | .float number => .ok number
  | .string text =>
    match floatOfText? text with
    | some number => .ok number
    | none =>
      .error (.evaluation (.notConvertible ((Value.string text).summary labels) .float))
  | value => .error (.evaluation (.notConvertible (value.summary labels) .float))

/-- The value as an integer; floating-point numbers go to the nearest one, ties
to even. -/
def toInteger (labels : Labels) : Value → Except Fault Int
  | .integer number => .ok number
  | .float number =>
    match number.round? with
    | some whole => .ok whole
    | none =>
      .error (.evaluation (.notConvertible ((Value.float number).summary labels) .integer))
  | .string text =>
    match integerOfText? text, (floatOfText? text).bind Binary64.round? with
    | some whole, _ => .ok whole
    | none, some whole => .ok whole
    | none, none =>
      .error (.evaluation (.notConvertible ((Value.string text).summary labels) .integer))
  | value => .error (.evaluation (.notConvertible (value.summary labels) .integer))

/-- The value as a truth value. -/
def toBoolean (labels : Labels) : Value → Except Fault Bool
  | .boolean flag => .ok flag
  | .integer number => .ok (number != 0)
  | .float number => .ok (!number.isZero)
  | .string text =>
    let word := Text.lowerCase (Text.trim text)
    if word == "true" then .ok true
    else if word == "false" then .ok false
    else
      .error (.evaluation (.notConvertible ((Value.string text).summary labels) .boolean))
  | .null => .ok false
  | value => .error (.evaluation (.notConvertible (value.summary labels) .boolean))

/-! ## Expectations -/

/-- The fault of a value that is not what was needed. -/
def unexpected (labels : Labels) (expectation : Expectation) (purpose : String)
    (value : Value) : Fault :=
  .evaluation (.expected expectation purpose (value.summary labels))

/-- The text of a string. -/
def expectString (labels : Labels) (purpose : String) : Value → Except Fault String
  | .string text => .ok text
  | value => .error (unexpected labels .string purpose value)

/-- The flag of a boolean. -/
def expectBoolean (labels : Labels) (purpose : String) : Value → Except Fault Bool
  | .boolean flag => .ok flag
  | value => .error (unexpected labels .boolean purpose value)

/-- The group of a group value. -/
def expectGroup (labels : Labels) (purpose : String) : Value → Except Fault Group
  | .group records => .ok records
  | value => .error (unexpected labels .group purpose value)

/-- The elements of an array. -/
def expectArray (labels : Labels) (purpose : String) : Value → Except Fault (List Value)
  | .array items => .ok items
  | value => .error (unexpected labels .array purpose value)

/-- The integer of a value that counts as one. -/
def expectInteger (labels : Labels) (purpose : String) (value : Value) : Except Fault Int :=
  if value.isIntegerLike then value.toInteger labels
  else .error (unexpected labels .integer purpose value)

/-- The integers of an array whose elements count as integers. -/
def expectIntegers (labels : Labels) (purpose : String) (value : Value) :
    Except Fault (List Int) := do
  let items ← value.expectArray labels purpose
  items.mapM fun item => item.expectInteger labels ("element of " ++ purpose)

/-! ## Plain values -/

mutual

/-- The script value of a plain value; mappings have none. -/
def ofPlain : Plain → Except Fault Value
  | .null => .ok .null
  | .bool flag => .ok (.boolean flag)
  | .int number => .ok (.integer number)
  | .float number => .ok (.float number)
  | .str text => .ok (.string text)
  | .list items => (ofPlainItems items).map .array
  | .mapping entries =>
    .error (.evaluation (.notScriptValue (Plain.mapping entries).kindName))

/-- The script values of plain values. -/
def ofPlainItems : List Plain → Except Fault (List Value)
  | [] => .ok []
  | item :: rest =>
    match ofPlain item with
    | .error fault => .error fault
    | .ok value => (ofPlainItems rest).map (value :: ·)

end

end Value

end Patchwork
