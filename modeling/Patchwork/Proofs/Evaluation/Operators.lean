import Patchwork.Expression.Operator
import Patchwork.Proofs.Results

/-!
# What operators give

An operator between two values gives a value of the kind that goes with it: a comparison
a truth value, a remainder an integer, arithmetic a number, and a sum with a string in it
the two texts together.  Otherwise it fails with a fault of its own or with one about a
number, which is put down to the operator.  So whatever is written between two values,
whichever they are, the outcome is a value or an evaluation fault.
-/

namespace Patchwork

/-- The faults that operands and operations on numbers give rise to. -/
inductive Fault.OfOperands : Fault → Prop
  | number (cause : NumberFault) : OfOperands (.number cause)
  | notConvertible (value : String) (conversion : Conversion) :
    OfOperands (.evaluation (.notConvertible value conversion))
  | divisionByZero : OfOperands (.evaluation .divisionByZero)
  | moduloByZero : OfOperands (.evaluation .moduloByZero)

/-- The faults of an operator: one about a number is put down to it. -/
inductive Fault.OfOperator : Fault → Prop
  | notConvertible (value : String) (conversion : Conversion) :
    OfOperator (.evaluation (.notConvertible value conversion))
  | divisionByZero : OfOperator (.evaluation .divisionByZero)
  | moduloByZero : OfOperator (.evaluation .moduloByZero)
  | cannotApply (symbol left right : String) (cause : NumberFault) :
    OfOperator (.evaluation (.cannotApply symbol left right cause))

theorem Fault.OfOperator.exists_evaluation {fault : Fault} (hfault : fault.OfOperator) :
    ∃ cause, fault = .evaluation cause := by
  cases hfault <;> exact ⟨_, rfl⟩

/-- An integer or a floating-point number. -/
def Value.IsNumber : Value → Prop
  | .integer _ => True
  | .float _ => True
  | _ => False

namespace Value

inductive IsInteger : Value → Prop
  | integer (number : Int) : IsInteger (.integer number)

inductive IsBoolean : Value → Prop
  | boolean (flag : Bool) : IsBoolean (.boolean flag)

inductive IsString : Value → Prop
  | string (text : String) : IsString (.string text)

variable (labels : Labels)

/-! ## Operands -/

theorem display_string (text : String) : (Value.string text).display labels = text := by
  rw [display]

theorem ends_toFloat (value : Value) :
    Ends (fun _ => True) Fault.OfOperands (value.toFloat labels) := by
  cases value with
  | integer number =>
    unfold toFloat
    dsimp only
    cases Binary64.ofInt? number with
    | none => exact .error (.number _)
    | some float => exact .ok trivial
  | float number => exact .ok trivial
  | string text =>
    unfold toFloat
    dsimp only
    split
    · exact .ok trivial
    · exact .error (.notConvertible _ _)
  | _ => exact .error (.notConvertible _ _)

theorem ends_toInteger (value : Value) :
    Ends (fun _ => True) Fault.OfOperands (value.toInteger labels) := by
  cases value with
  | integer number => exact .ok trivial
  | float number =>
    unfold toInteger
    dsimp only
    split
    · exact .ok trivial
    · exact .error (.notConvertible _ _)
  | string text =>
    unfold toInteger
    dsimp only
    split
    · exact .ok trivial
    · exact .ok trivial
    · exact .error (.notConvertible _ _)
  | _ => exact .error (.notConvertible _ _)

theorem ends_toBoolean (value : Value) :
    Ends (fun _ => True) Fault.OfOperands (value.toBoolean labels) := by
  cases value with
  | string text =>
    simp only [toBoolean]
    split
    · exact .ok trivial
    split
    · exact .ok trivial
    · exact .error (.notConvertible _ _)
  | boolean _ | integer _ | float _ | null => exact .ok trivial
  | _ => exact .error (.notConvertible _ _)

end Value

namespace BinaryOperator

open Value

variable (labels : Labels)

/-! ## One operator at a time -/

theorem ends_arithmetic (onIntegers : Int → Int → Int)
    (onFloats : Binary64 → Binary64 → Binary64) (left right : Value) :
    Ends IsNumber Fault.OfOperands (arithmetic labels onIntegers onFloats left right) := by
  unfold arithmetic
  split
  · exact (ends_toFloat labels left).andThen fun _ =>
      (ends_toFloat labels right).andThen fun _ => .ok trivial
  · exact (ends_toInteger labels left).andThen fun _ =>
      (ends_toInteger labels right).andThen fun _ => .ok trivial

/-- What a sum may be: the texts of both sides together if one of them is a string, and a
number if none is. -/
inductive IsSum (left right : Value) : Value → Prop
  | together (hstring : left.IsString ∨ right.IsString) :
    IsSum left right (.string (left.display labels ++ right.display labels))
  | number {value : Value} (hleft : ¬ left.IsString) (hright : ¬ right.IsString)
    (hvalue : value.IsNumber) : IsSum left right value

theorem ends_add (left right : Value) :
    Ends (IsSum labels left right) Fault.OfOperands (add labels left right) := by
  unfold add
  split
  · rename_i text
    have hsum : IsSum labels (.string text) right
        (.string ((Value.string text).display labels ++ right.display labels)) :=
      .together (.inl (.string text))
    rw [display_string] at hsum
    exact .ok hsum
  · rename_i text _
    have hsum : IsSum labels left (.string text)
        (.string (left.display labels ++ (Value.string text).display labels)) :=
      .together (.inr (.string text))
    rw [display_string] at hsum
    exact .ok hsum
  · rename_i hleft hright
    refine (ends_arithmetic labels _ _ left right).mono (fun value hvalue => ?_) fun _ => id
    refine .number ?_ ?_ hvalue
    · rintro ⟨text⟩
      exact hleft text rfl
    · rintro ⟨text⟩
      exact hright text rfl

theorem ends_divide (left right : Value) :
    Ends IsNumber Fault.OfOperands (divide labels left right) := by
  unfold divide
  split
  · refine (ends_toInteger labels left).andThen fun _ =>
      (ends_toInteger labels right).andThen fun _ => ?_
    split
    · exact .error .divisionByZero
    split
    · exact .ok trivial
    split
    · exact .ok trivial
    · exact .error (.number _)
  · refine (ends_toFloat labels right).andThen fun _ => ?_
    split
    · exact .error .divisionByZero
    · exact (ends_toFloat labels left).andThen fun _ => .ok trivial

/-- An infinite dividend has no remainder, and a remainder that is not a number has no
integer part. -/
theorem ends_remainder (left right : Value) :
    Ends IsInteger Fault.OfOperands (remainder labels left right) := by
  unfold remainder
  split
  · refine (ends_toInteger labels left).andThen fun _ =>
      (ends_toInteger labels right).andThen fun _ => ?_
    split
    · exact .error .moduloByZero
    · exact .ok (.integer _)
  · refine (ends_toFloat labels right).andThen fun _ => ?_
    split
    · exact .error .moduloByZero
    refine (ends_toFloat labels left).andThen fun _ => ?_
    split
    · exact .error (.number _)
    split
    · exact .ok (.integer _)
    · exact .error (.number _)

theorem ends_compare (holds : Binary64 → Binary64 → Bool) (left right : Value) :
    Ends IsBoolean Fault.OfOperands (compare labels holds left right) :=
  (ends_toFloat labels left).andThen fun _ =>
    (ends_toFloat labels right).andThen fun _ => .ok (.boolean _)

theorem ends_equals (left right : Value) :
    Ends (fun _ => True) Fault.OfOperands (equals labels left right) := by
  unfold equals
  split
  · exact .ok trivial
  · exact .ok trivial
  · exact .ok trivial
  · split
    · exact (ends_toInteger labels _).andThen fun _ =>
        (ends_toInteger labels _).andThen fun _ => .ok trivial
    split
    · exact (ends_toFloat labels _).andThen fun _ =>
        (ends_toFloat labels _).andThen fun _ => .ok trivial
    · exact .ok trivial

/-! ## Every operator -/

/-- The values an operator may give between two others. -/
def Gives (operator : BinaryOperator) (left right : Value) : Value → Prop :=
  match operator with
  | .plus => IsSum labels left right
  | .minus | .times | .divided => IsNumber
  | .modulo => IsInteger
  | .or | .and | .equal | .notEqual | .greater | .less | .atLeast | .atMost => IsBoolean

theorem ends_result (operator : BinaryOperator) (left right : Value) :
    Ends (operator.Gives labels left right) Fault.OfOperands
      (operator.result labels left right) := by
  cases operator with
  | plus => exact ends_add labels left right
  | minus | times => exact ends_arithmetic labels _ _ left right
  | divided => exact ends_divide labels left right
  | modulo => exact ends_remainder labels left right
  | equal | notEqual => exact (ends_equals labels left right).map fun _ _ => .boolean _
  | greater | less | atLeast | atMost => exact ends_compare labels _ left right
  | or | and =>
    refine (ends_toBoolean labels left).andThen fun flag => ?_
    split
    · exact .ok (.boolean _)
    · exact (ends_toBoolean labels right).andThen fun _ => .ok (.boolean _)

theorem ends_apply (operator : BinaryOperator) (left right : Value) :
    Ends (operator.Gives labels left right) Fault.OfOperator
      (operator.apply labels left right) := by
  have hresult := ends_result labels operator left right
  unfold apply
  generalize operator.result labels left right = outcome at hresult ⊢
  cases hresult with
  | ok hvalue => exact .ok hvalue
  | error hfault =>
    cases hfault with
    | number cause => exact .error (.cannotApply _ _ _ cause)
    | notConvertible value conversion => exact .error (.notConvertible value conversion)
    | divisionByZero => exact .error .divisionByZero
    | moduloByZero => exact .error .moduloByZero

theorem applySymbol_symbol {operator : BinaryOperator} (hlogical : operator.isLogical = false)
    (left right : Value) :
    applySymbol labels operator.symbol left right = operator.apply labels left right := by
  simp only [applySymbol, ofSymbol?_symbol, hlogical, Bool.false_eq_true, if_false]

end BinaryOperator

end Patchwork
