import Patchwork.Proofs.Evaluation.Operators
import Patchwork.Proofs.Number.Nearest

/-!
# Equality

Equality is symmetric, faults included.  It is reflexive except where it subtracts an infinity
from itself: an infinite number differs from itself, and so does a text that reads as one or as
`nan`.
-/

namespace Patchwork

namespace Binary64

theorem equals_comm (left right : Binary64) : equals left right = equals right left := by
  cases left <;> cases right
  case finite.finite => exact decide_eq_decide.mpr eq_comm
  case infinite.infinite => exact Bool.beq_comm
  all_goals rfl

theorem equals_self (number : Binary64) (hnumber : number.isNan = false) :
    equals number number = true := by
  cases number with
  | finite negative units fits => exact decide_eq_true rfl
  | infinite negative => exact beq_self_eq_true negative
  | nan mark => cases hnumber

theorem same_comm (left right : Binary64) : same left right = same right left := by
  cases left <;> cases right
  case nan.nan => exact Bool.beq_comm
  all_goals
    simp only [same]
    rw [equals_comm]

theorem same_self (number : Binary64) : same number number = true := by
  cases number with
  | finite negative units fits => exact equals_self (.finite negative units fits) rfl
  | infinite negative => exact equals_self (.infinite negative) rfl
  | nan mark => exact beq_self_eq_true mark

/-! ## Distances -/

theorem magnitude_ofUnits (negative : Bool) (units : Nat) :
    (ofUnits negative units).magnitude = ofUnits false units := by
  rw [ofUnits, ofUnits]
  split <;> rfl

theorem signedUnits_not (negative : Bool) (units : Nat) :
    signedUnits (!negative) units = -signedUnits negative units := by
  cases negative with
  | false => rfl
  | true => exact (Int.neg_neg _).symm

theorem roundUnits_zero : roundUnits 0 1 = 0 := by
  decide

/-- The sum of finite numbers without its sign. -/
theorem magnitude_add_finite (leftSign rightSign : Bool) {leftUnits rightUnits : Nat}
    (leftFits : fitsUnits leftUnits = true) (rightFits : fitsUnits rightUnits = true) :
    (add (.finite leftSign leftUnits leftFits) (.finite rightSign rightUnits rightFits)).magnitude =
      ofUnits false
        (roundUnits (signedUnits leftSign leftUnits + signedUnits rightSign rightUnits).natAbs 1) := by
  rw [add]
  split
  case isTrue hcancel =>
    rw [magnitude_ofUnits, hcancel, Int.natAbs_zero, roundUnits_zero]
  case isFalse => exact magnitude_ofUnits _ _

/-- Two numbers are as far from each other in either order. -/
theorem magnitude_subtract_comm (left right : Binary64) :
    (subtract left right).magnitude = (subtract right left).magnitude := by
  cases left with
  | finite leftSign leftUnits leftFits =>
    cases right with
    | finite rightSign rightUnits rightFits =>
      simp only [subtract, negate, magnitude_add_finite, signedUnits_not]
      rw [← Int.natAbs_neg, Int.neg_add, Int.neg_neg, Int.add_comm]
    | infinite | nan => rfl
  | infinite leftSign =>
    cases right with
    | infinite rightSign => cases leftSign <;> cases rightSign <;> rfl
    | finite | nan => rfl
  | nan mark => cases right <;> rfl

theorem zero_less_equalityTolerance : zero.less equalityTolerance = true := by
  decide +kernel

/-- Only a finite number is near itself, because an infinity less itself is `nan`. -/
theorem near_self (number : Binary64) :
    (subtract number number).magnitude.less equalityTolerance = number.isFinite := by
  cases number with
  | finite negative units fits =>
    simp only [subtract, negate, magnitude_add_finite, signedUnits_not]
    rw [Int.add_right_neg, Int.natAbs_zero, roundUnits_zero]
    exact zero_less_equalityTolerance
  | infinite negative => cases negative <;> rfl
  | nan mark => rfl

end Binary64

namespace Value

/-! ## Values with equal content -/

mutual

theorem same_comm (left right : Value) : same left right = same right left := by
  cases left with
  | array items =>
    cases right with
    | array others => exact sameItems_comm items others
    | _ => rfl
  | float number =>
    cases right with
    | float other => exact Binary64.same_comm number other
    | _ => rfl
  | _ =>
    cases right
    all_goals first
      | rfl
      | exact Bool.beq_comm

theorem sameItems_comm (left right : List Value) : sameItems left right = sameItems right left := by
  cases left with
  | nil => cases right <;> rfl
  | cons item rest =>
    cases right with
    | nil => rfl
    | cons other others =>
      rw [sameItems, sameItems, same_comm item other, sameItems_comm rest others]

end

mutual

theorem same_self (value : Value) : same value value = true := by
  cases value with
  | array items => exact sameItems_self items
  | float number => exact Binary64.same_self number
  | null => rfl
  | _ => exact beq_self_eq_true _

theorem sameItems_self (items : List Value) : sameItems items items = true := by
  cases items with
  | nil => rfl
  | cons item rest => rw [sameItems, same_self item, sameItems_self rest, Bool.true_and]

end

/-! ## Operands -/

variable (labels : Labels) {value : Value}

theorem isIntegerLike_string (text : String) :
    (Value.string text).isIntegerLike = (integerOfText? text).isSome := rfl

theorem isNumericLike_string (text : String) :
    (Value.string text).isNumericLike = (floatOfText? text).isSome := rfl

/-- What counts as an integer converts to one. -/
theorem exists_toInteger (hvalue : value.isIntegerLike = true) :
    ∃ integer, value.toInteger labels = .ok integer := by
  cases value with
  | integer number => exact ⟨number, rfl⟩
  | float number =>
    cases number with
    | finite negative units fits => exact ⟨_, rfl⟩
    | infinite | nan => cases hvalue
  | string text =>
    rw [isIntegerLike_string] at hvalue
    obtain ⟨integer, hinteger⟩ := Option.isSome_iff_exists.mp hvalue
    exact ⟨integer, by rw [toInteger, hinteger]⟩
  | _ => cases hvalue

/-- What counts as a number converts to one unless it is an integer that is too large. -/
theorem ends_toFloat_of_isNumericLike (hvalue : value.isNumericLike = true) :
    Ends (fun _ => True) (· = .number .integerTooLarge) (value.toFloat labels) := by
  cases value with
  | integer number =>
    unfold toFloat
    dsimp only
    cases Binary64.ofInt? number with
    | none => exact .error rfl
    | some rounded => exact .ok trivial
  | float number => exact .ok trivial
  | string text =>
    rw [isNumericLike_string] at hvalue
    obtain ⟨number, hnumber⟩ := Option.isSome_iff_exists.mp hvalue
    rw [toFloat, hnumber]
    exact .ok trivial
  | _ => cases hvalue

/-- The floating-point number that a value is or reads as, unless it reads as an integer. -/
def float? : Value → Option Binary64
  | .float number => some number
  | .string text => if (integerOfText? text).isSome then none else floatOfText? text
  | _ => none

theorem all_float?_of_isIntegerLike (hvalue : value.isIntegerLike = true) :
    value.float?.all Binary64.isFinite = true := by
  cases value with
  | float number =>
    cases number with
    | finite negative units fits => rfl
    | infinite | nan => cases hvalue
  | string text =>
    rw [isIntegerLike_string] at hvalue
    rw [float?, if_pos hvalue]
    rfl
  | _ => rfl

/-- What counts as a number but not as an integer is compared as this number. -/
theorem exists_float? (hinteger : value.isIntegerLike = false)
    (hnumeric : value.isNumericLike = true) :
    ∃ number, value.float? = some number ∧ value.toFloat labels = .ok number := by
  cases value with
  | integer number => cases hinteger
  | float number => exact ⟨number, rfl, rfl⟩
  | string text =>
    rw [isIntegerLike_string] at hinteger
    rw [isNumericLike_string] at hnumeric
    obtain ⟨number, hnumber⟩ := Option.isSome_iff_exists.mp hnumeric
    exact ⟨number, by rw [float?, hinteger, hnumber]; rfl, by rw [toFloat, hnumber]⟩
  | _ => cases hnumeric

theorem float?_eq_none (hinteger : value.isIntegerLike = false)
    (hnumeric : value.isNumericLike = false) : value.float? = none := by
  cases value with
  | float number => cases hnumeric
  | string text =>
    rw [isIntegerLike_string] at hinteger
    rw [isNumericLike_string] at hnumeric
    rw [Option.isSome_eq_false_iff, Option.isNone_iff_eq_none] at hnumeric
    rw [float?, hinteger, hnumeric]
    rfl
  | _ => rfl

end Value

namespace BinaryOperator

variable (labels : Labels)

theorem equals_of_ne_null {left right : Value} (hleft : left ≠ .null) (hright : right ≠ .null) :
    equals labels left right =
      if left.isIntegerLike && right.isIntegerLike then do
        return decide ((← left.toInteger labels) = (← right.toInteger labels))
      else if left.isNumericLike && right.isNumericLike then do
        return ((← left.toFloat labels).subtract (← right.toFloat labels)).magnitude.less
          equalityTolerance
      else .ok (left.same right) := by
  rw [equals]
  · rfl
  all_goals simp [hleft, hright]

theorem equals_null {value : Value} (hvalue : value ≠ .null) :
    equals labels .null value = .ok false ∧ equals labels value .null = .ok false := by
  cases value with
  | null => exact absurd rfl hvalue
  | _ => exact ⟨rfl, rfl⟩

/-- The order of two steps does not matter if they can fail in one way only. -/
theorem bind_comm_of_ends {Operand Result : Type} {fault : Fault}
    {first second : Except Fault Operand} {make : Operand → Operand → Result}
    (hfirst : Ends (fun _ => True) (· = fault) first)
    (hsecond : Ends (fun _ => True) (· = fault) second)
    (hmake : ∀ left right, make left right = make right left) :
    (do return make (← first) (← second) : Except Fault Result) =
      do return make (← second) (← first) := by
  cases hfirst with
  | ok hleft =>
    cases hsecond with
    | ok hright => exact congrArg Except.ok (hmake _ _)
    | error hfault => rfl
  | error hfirst =>
    cases hsecond with
    | ok hright => rfl
    | error hsecond => exact congrArg Except.error (hfirst.trans hsecond.symm)

/-- Neither what equality gives nor how it fails depends on the order of the values. -/
theorem equals_comm (left right : Value) :
    equals labels left right = equals labels right left := by
  by_cases hleft : left = .null
  · subst hleft
    by_cases hright : right = .null
    · rw [hright]
    · rw [(equals_null labels hright).1, (equals_null labels hright).2]
  by_cases hright : right = .null
  · rw [hright, (equals_null labels hleft).1, (equals_null labels hleft).2]
  rw [equals_of_ne_null labels hleft hright, equals_of_ne_null labels hright hleft,
    Bool.and_comm right.isIntegerLike, Bool.and_comm right.isNumericLike, Value.same_comm right]
  split
  case isTrue hintegers =>
    obtain ⟨hleftInteger, hrightInteger⟩ := Bool.and_eq_true_iff.mp hintegers
    obtain ⟨first, hfirst⟩ := Value.exists_toInteger labels hleftInteger
    obtain ⟨second, hsecond⟩ := Value.exists_toInteger labels hrightInteger
    rw [hfirst, hsecond]
    exact congrArg Except.ok (decide_eq_decide.mpr eq_comm)
  split
  case isTrue hnumbers =>
    -- Either conversion can fail in one way only, so it does not matter which comes first.
    obtain ⟨hleftNumber, hrightNumber⟩ := Bool.and_eq_true_iff.mp hnumbers
    exact bind_comm_of_ends (Value.ends_toFloat_of_isNumericLike labels hleftNumber)
      (Value.ends_toFloat_of_isNumericLike labels hrightNumber)
      fun first second => congrArg (·.less equalityTolerance)
        (Binary64.magnitude_subtract_comm first second)
  case isFalse => rfl

/-- A value equals itself unless it is compared as an infinity or as `nan`. -/
theorem equals_self (value : Value) :
    equals labels value value = .ok (value.float?.all Binary64.isFinite) := by
  by_cases hnull : value = .null
  · rw [hnull]
    rfl
  rw [equals_of_ne_null labels hnull hnull, Bool.and_self, Bool.and_self, Value.same_self]
  cases hinteger : value.isIntegerLike with
  | true =>
    obtain ⟨integer, htoInteger⟩ := Value.exists_toInteger labels hinteger
    rw [htoInteger, Value.all_float?_of_isIntegerLike hinteger]
    exact congrArg Except.ok (decide_eq_true rfl)
  | false =>
    cases hnumeric : value.isNumericLike with
    | true =>
      obtain ⟨number, hfloat, htoFloat⟩ := Value.exists_float? labels hinteger hnumeric
      rw [htoFloat, hfloat, Option.all_some, ← Binary64.near_self number]
      rfl
    | false =>
      rw [Value.float?_eq_none hinteger hnumeric]
      rfl

/-- Equality does not depend on the order of the values, and a value equals itself unless it is
a floating-point number that is not finite or a text that reads as one. -/
theorem equals_symmetric_and_reflexive :
    (∀ left right, equals labels left right = equals labels right left) ∧
      ∀ value, equals labels value value = .ok (value.float?.all Binary64.isFinite) :=
  ⟨equals_comm labels, equals_self labels⟩

/-- An infinity does not equal itself, though it is at most and at least itself, and neither do
texts that read as numbers like it. -/
theorem infinity_not_equal_to_itself :
    equals (fun _ => "") (.float (.infinite false)) (.float (.infinite false)) = .ok false ∧
      atMost.apply (fun _ => "") (.float (.infinite false)) (.float (.infinite false)) =
        .ok (.boolean true) ∧
      equals (fun _ => "") (.string "inf") (.string "inf") = .ok false ∧
      equals (fun _ => "") (.string "nan") (.string "nan") = .ok false := by
  refine ⟨rfl, rfl, ?_, ?_⟩
  all_goals
    rw [equals_self]
    exact congrArg Except.ok (by decide +kernel)

end BinaryOperator

end Patchwork
