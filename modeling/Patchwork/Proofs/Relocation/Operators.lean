import Patchwork.Proofs.Relocation.Values

/-!
# Coercions and operators after a relocation

Coercions and operators give corresponding results for corresponding values, or
fail alike, if records are called the same at their other places.
-/

namespace Patchwork

open Agree

variable {relocation : Relocation} {labels labels' : Labels}

/-- The same number but for marks. -/
def Relocation.Numbers (relocation : Relocation) (number number' : Binary64) : Prop :=
  number' = number.remark relocation.mark

theorem floatOfText?_remark {text : String} {number : Binary64}
    (hnumber : floatOfText? text = some number) : number.remark relocation.mark = number :=
  Binary64.remark_of_float? relocation.mark_zero hnumber

/-! ## Coercions -/

namespace Value

theorem ofNumber_relocate (number : Binary64) :
    relocation.Values (ofNumber number) (ofNumber (number.remark relocation.mark)) := by
  unfold ofNumber
  rw [Binary64.isWhole_remark, Binary64.truncate?_remark]
  split
  · exact Relocation.values_integer _
  · exact Relocation.values_float _

@[simp]
theorem isIntegerLike_relocate (value : Value) :
    (value.relocate relocation).isIntegerLike = value.isIntegerLike := by
  cases value with
  | float number => exact Binary64.isWhole_remark number
  | _ => rfl

@[simp]
theorem isFloatLike_relocate (value : Value) :
    (value.relocate relocation).isFloatLike = value.isFloatLike := by
  cases value <;> rfl

@[simp]
theorem isNumericLike_relocate (value : Value) :
    (value.relocate relocation).isNumericLike = value.isNumericLike := by
  cases value <;> rfl

theorem toFloat_relocate (hlabels : ∀ ref, labels' (relocation.ref ref) = labels ref)
    (value : Value) :
    Outcomes relocation.Numbers (value.toFloat labels)
      ((value.relocate relocation).toFloat labels') := by
  have hsummary := summary_relocate hlabels value
  cases value with
  | integer number =>
    unfold relocate toFloat
    dsimp only
    cases hrounded : Binary64.ofInt? number with
    | none => exact .error _
    | some rounded => exact .ok (Binary64.remark_of_ofInt? hrounded).symm
  | float number => exact .ok rfl
  | string text =>
    simp only [relocate] at hsummary
    unfold relocate toFloat
    dsimp only
    cases hnumber : floatOfText? text with
    | none => exact .error _
    | some number => exact .ok (floatOfText?_remark hnumber).symm
  | _ =>
    simp only [relocate] at hsummary
    unfold relocate toFloat
    dsimp only
    rw [hsummary]
    exact .error _

theorem toInteger_relocate (hlabels : ∀ ref, labels' (relocation.ref ref) = labels ref)
    (value : Value) :
    (value.relocate relocation).toInteger labels' = value.toInteger labels := by
  have hsummary := summary_relocate hlabels value
  cases value with
  | integer number => rfl
  | float number =>
    simp only [relocate] at hsummary
    unfold relocate toInteger
    dsimp only
    rw [Binary64.round?_remark, hsummary]
  | string text =>
    simp only [relocate] at hsummary
    unfold relocate toInteger
    dsimp only
    rw [hsummary]
  | _ =>
    simp only [relocate] at hsummary
    unfold relocate toInteger
    dsimp only
    rw [hsummary]

theorem toBoolean_relocate (hlabels : ∀ ref, labels' (relocation.ref ref) = labels ref)
    (value : Value) :
    (value.relocate relocation).toBoolean labels' = value.toBoolean labels := by
  have hsummary := summary_relocate hlabels value
  cases value with
  | integer number => rfl
  | float number => simp only [relocate, toBoolean, Binary64.isZero_remark]
  | string text => rfl
  | boolean flag => rfl
  | null => rfl
  | _ =>
    simp only [relocate] at hsummary
    simp only [relocate, toBoolean, hsummary]

/-! ## Expectations -/

theorem unexpected_relocate (hlabels : ∀ ref, labels' (relocation.ref ref) = labels ref)
    (expectation : Expectation) (purpose : String) (value : Value) :
    unexpected labels' expectation purpose (value.relocate relocation) =
      unexpected labels expectation purpose value := by
  simp only [unexpected, summary_relocate hlabels value]

theorem expectString_relocate (hlabels : ∀ ref, labels' (relocation.ref ref) = labels ref)
    (purpose : String) (value : Value) :
    (value.relocate relocation).expectString labels' purpose =
      value.expectString labels purpose := by
  have hunexpected := unexpected_relocate hlabels .string purpose value
  cases value with
  | string text => rfl
  | _ => exact congrArg Except.error hunexpected

theorem expectBoolean_relocate (hlabels : ∀ ref, labels' (relocation.ref ref) = labels ref)
    (purpose : String) (value : Value) :
    (value.relocate relocation).expectBoolean labels' purpose =
      value.expectBoolean labels purpose := by
  have hunexpected := unexpected_relocate hlabels .boolean purpose value
  cases value with
  | boolean flag => rfl
  | _ => exact congrArg Except.error hunexpected

theorem expectInteger_relocate (hlabels : ∀ ref, labels' (relocation.ref ref) = labels ref)
    (purpose : String) (value : Value) :
    (value.relocate relocation).expectInteger labels' purpose =
      value.expectInteger labels purpose := by
  simp only [expectInteger, isIntegerLike_relocate, toInteger_relocate hlabels,
    unexpected_relocate hlabels]

variable {value value' : Value}

theorem expectGroup_relocate (hlabels : ∀ ref, labels' (relocation.ref ref) = labels ref)
    (purpose : String) (hvalues : relocation.Values value value') :
    Outcomes relocation.Groups (value.expectGroup labels purpose)
      (value'.expectGroup labels' purpose) := by
  obtain ⟨rfl, hfree⟩ := hvalues
  have hunexpected := unexpected_relocate hlabels .group purpose value
  cases value with
  | group group => exact .ok ⟨rfl, hfree⟩
  | _ =>
    simp only [Value.relocate] at hunexpected
    simp only [Value.relocate, expectGroup, hunexpected]
    exact .error _

theorem expectArray_relocate (hlabels : ∀ ref, labels' (relocation.ref ref) = labels ref)
    (purpose : String) (hvalues : relocation.Values value value') :
    Outcomes (List.Forall₂ relocation.Values) (value.expectArray labels purpose)
      (value'.expectArray labels' purpose) := by
  obtain ⟨rfl, hfree⟩ := hvalues
  have hunexpected := unexpected_relocate hlabels .array purpose value
  cases value with
  | array items => exact .ok (Relocation.forall₂_values_iff.mpr ⟨rfl, hfree⟩)
  | _ =>
    simp only [Value.relocate] at hunexpected
    simp only [Value.relocate, expectArray, hunexpected]
    exact .error _

theorem expectIntegers_relocate (hlabels : ∀ ref, labels' (relocation.ref ref) = labels ref)
    (purpose : String) (hvalues : relocation.Values value value') :
    Outcomes Eq (value.expectIntegers labels purpose)
      (value'.expectIntegers labels' purpose) := by
  unfold expectIntegers
  refine (expectArray_relocate hlabels purpose hvalues).of_bind fun items items' hitems => ?_
  obtain ⟨rfl, -⟩ := Relocation.forall₂_values_iff.mp hitems
  refine Outcomes.of_eq ?_
  rw [relocateItems_eq_map]
  clear hitems
  induction items with
  | nil => rw [List.map_nil, List.mapM_nil, List.mapM_nil]
  | cons item rest ih =>
    rw [List.map_cons, List.mapM_cons, List.mapM_cons, ih, expectInteger_relocate hlabels]

/-! ## Plain values -/

mutual

theorem ofPlain_relocate (plain : Plain) :
    Outcomes relocation.Values (ofPlain plain) (ofPlain (plain.remark relocation.mark)) := by
  cases plain with
  | list items =>
    simp only [Plain.remark, ofPlain]
    exact (ofPlainItems_relocate items).of_map fun _ _ => Relocation.values_array
  | null => exact .ok Relocation.values_null
  | bool flag => exact .ok (Relocation.values_boolean flag)
  | int number => exact .ok (Relocation.values_integer number)
  | float number => exact .ok (Relocation.values_float number)
  | str text => exact .ok (Relocation.values_string text)
  | mapping entries => exact .error _

theorem ofPlainItems_relocate (items : List Plain) :
    Outcomes (List.Forall₂ relocation.Values) (ofPlainItems items)
      (ofPlainItems (Plain.remarkItems relocation.mark items)) := by
  cases items with
  | nil => exact .ok List.Forall₂.nil
  | cons item rest =>
    have hfirst := ofPlain_relocate item
    have hrest := ofPlainItems_relocate rest
    simp only [Plain.remarkItems, ofPlainItems]
    generalize ofPlain item = first, ofPlain (item.remark relocation.mark) = first' at hfirst ⊢
    cases hfirst with
    | error fault => exact .error fault
    | ok hfirst => exact hrest.of_map fun _ _ => List.Forall₂.cons hfirst

end

end Value

/-! ## Operators -/

namespace BinaryOperator

theorem arithmetic_relocate (hlabels : ∀ ref, labels' (relocation.ref ref) = labels ref)
    (onIntegers : Int → Int → Int) (onFloats : Binary64 → Binary64 → Binary64)
    (honFloats : ∀ left right,
      onFloats (left.remark relocation.mark) (right.remark relocation.mark) =
        (onFloats left right).remark relocation.mark) (left right : Value) :
    Outcomes relocation.Values (arithmetic labels onIntegers onFloats left right)
      (arithmetic labels' onIntegers onFloats (left.relocate relocation)
        (right.relocate relocation)) := by
  unfold arithmetic
  rw [Value.isFloatLike_relocate, Value.isFloatLike_relocate,
    Value.toInteger_relocate hlabels, Value.toInteger_relocate hlabels]
  split
  · refine (Value.toFloat_relocate hlabels left).of_bind fun first first' hfirst => ?_
    refine (Value.toFloat_relocate hlabels right).of_bind fun second second' hsecond => ?_
    subst hfirst hsecond
    refine .ok ⟨?_, trivial⟩
    rw [honFloats]
    rfl
  · refine (Outcomes.of_eq rfl).of_bind fun first first' hfirst => ?_
    refine (Outcomes.of_eq rfl).of_bind fun second second' hsecond => ?_
    subst hfirst hsecond
    exact .ok (Relocation.values_integer _)

theorem add_relocate (hlabels : ∀ ref, labels' (relocation.ref ref) = labels ref)
    (left right : Value) :
    Outcomes relocation.Values (add labels left right)
      (add labels' (left.relocate relocation) (right.relocate relocation)) := by
  have hleft := Value.display_relocate hlabels left
  have hright := Value.display_relocate hlabels right
  have harithmetic := arithmetic_relocate hlabels (· + ·) Binary64.add
    (fun left right => by
      rw [Binary64.add_remark_left, Binary64.add_remark_right,
        Binary64.remark_add relocation.mark_zero]) left right
  cases left with
  | string text =>
    refine .ok ⟨?_, trivial⟩
    rw [hright]
    rfl
  | _ =>
    cases right with
    | string text =>
      refine .ok ⟨?_, trivial⟩
      rw [hleft]
      rfl
    | _ => exact harithmetic

theorem divide_relocate (hlabels : ∀ ref, labels' (relocation.ref ref) = labels ref)
    (left right : Value) :
    Outcomes relocation.Values (divide labels left right)
      (divide labels' (left.relocate relocation) (right.relocate relocation)) := by
  unfold divide
  rw [Value.isIntegerLike_relocate, Value.isIntegerLike_relocate,
    Value.toInteger_relocate hlabels, Value.toInteger_relocate hlabels]
  split
  · refine (Outcomes.of_eq rfl).of_bind fun first first' hfirst => ?_
    refine (Outcomes.of_eq rfl).of_bind fun second second' hsecond => ?_
    subst hfirst hsecond
    split
    · exact .error _
    · split
      · exact .ok (Relocation.values_integer _)
      · cases hquotient : integerQuotient first second with
        | error fault => exact .error (.number fault)
        | ok quotient =>
          exact .ok <| Relocation.values_float_of_eq (Binary64.remark_of_integerQuotient hquotient)
  · refine (Value.toFloat_relocate hlabels right).of_bind fun second second' hsecond => ?_
    subst hsecond
    rw [Binary64.isZero_remark]
    split
    · exact .error _
    · refine (Value.toFloat_relocate hlabels left).of_bind fun first first' hfirst => ?_
      subst hfirst
      rw [Binary64.divide_remark]
      exact .ok <| Relocation.values_float_of_eq (Binary64.remark_divide relocation.mark_zero _ _)

theorem remainder_relocate (hlabels : ∀ ref, labels' (relocation.ref ref) = labels ref)
    (left right : Value) :
    Outcomes relocation.Values (remainder labels left right)
      (remainder labels' (left.relocate relocation) (right.relocate relocation)) := by
  unfold remainder
  rw [Value.isIntegerLike_relocate, Value.isIntegerLike_relocate,
    Value.toInteger_relocate hlabels, Value.toInteger_relocate hlabels]
  split
  · refine (Outcomes.of_eq rfl).of_bind fun first first' hfirst => ?_
    refine (Outcomes.of_eq rfl).of_bind fun second second' hsecond => ?_
    subst hfirst hsecond
    split
    · exact .error _
    · exact .ok (Relocation.values_integer _)
  · refine (Value.toFloat_relocate hlabels right).of_bind fun second second' hsecond => ?_
    subst hsecond
    rw [Binary64.isZero_remark]
    split
    · exact .error _
    · refine (Value.toFloat_relocate hlabels left).of_bind fun first first' hfirst => ?_
      subst hfirst
      rw [Binary64.remainder?_remark]
      cases first.remainder? second with
      | none => exact .error _
      | some number =>
        dsimp only
        cases truncateToInteger number with
        | error fault => exact .error (.number fault)
        | ok whole => exact .ok (Relocation.values_integer whole)

theorem equals_of_not_null (labels : Labels) {left right : Value} (hleft : left ≠ .null)
    (hright : right ≠ .null) :
    equals labels left right =
      if left.isIntegerLike && right.isIntegerLike then do
        return decide ((← left.toInteger labels) = (← right.toInteger labels))
      else if left.isNumericLike && right.isNumericLike then do
        let difference := (← left.toFloat labels).subtract (← right.toFloat labels)
        return difference.magnitude.less equalityTolerance
      else return left.same right := by
  unfold equals
  split
  · exact absurd rfl hleft
  · exact absurd rfl hleft
  · exact absurd rfl hright
  · rfl

theorem relocate_eq_null_iff {value : Value} :
    value.relocate relocation = .null ↔ value = .null := by
  cases value <;> simp [Value.relocate]

theorem equals_relocate (hlabels : ∀ ref, labels' (relocation.ref ref) = labels ref)
    (left right : Value) :
    Outcomes Eq (equals labels left right)
      (equals labels' (left.relocate relocation) (right.relocate relocation)) := by
  by_cases hleft : left = .null
  · subst hleft
    cases right <;> exact .ok rfl
  by_cases hright : right = .null
  · subst hright
    cases left <;> exact .ok rfl
  rw [equals_of_not_null labels hleft hright,
    equals_of_not_null labels' (relocate_eq_null_iff.not.mpr hleft)
      (relocate_eq_null_iff.not.mpr hright),
    Value.isIntegerLike_relocate, Value.isIntegerLike_relocate, Value.isNumericLike_relocate,
    Value.isNumericLike_relocate, Value.toInteger_relocate hlabels,
    Value.toInteger_relocate hlabels, Value.same_relocate]
  split
  · exact Outcomes.of_eq rfl
  split
  · refine (Value.toFloat_relocate hlabels left).of_bind fun first first' hfirst => ?_
    refine (Value.toFloat_relocate hlabels right).of_bind fun second second' hsecond => ?_
    subst hfirst hsecond
    rw [Binary64.subtract_remark]
    exact .ok rfl
  · exact .ok rfl

theorem compare_relocate (hlabels : ∀ ref, labels' (relocation.ref ref) = labels ref)
    (holds : Binary64 → Binary64 → Bool)
    (hholds : ∀ left right,
      holds (left.remark relocation.mark) (right.remark relocation.mark) = holds left right)
    (left right : Value) :
    Outcomes relocation.Values (compare labels holds left right)
      (compare labels' holds (left.relocate relocation) (right.relocate relocation)) := by
  unfold compare
  refine (Value.toFloat_relocate hlabels left).of_bind fun first first' hfirst => ?_
  refine (Value.toFloat_relocate hlabels right).of_bind fun second second' hsecond => ?_
  subst hfirst hsecond
  rw [hholds]
  exact .ok (Relocation.values_boolean _)

theorem decide_relocate (hlabels : ∀ ref, labels' (relocation.ref ref) = labels ref)
    (operator : BinaryOperator) (left right : Value) :
    Outcomes relocation.Values
      (do
        match operator.decided? (← left.toBoolean labels) with
        | some flag => return .boolean flag
        | none => return .boolean (← right.toBoolean labels))
      (do
        match operator.decided? (← (left.relocate relocation).toBoolean labels') with
        | some flag => return .boolean flag
        | none => return .boolean (← (right.relocate relocation).toBoolean labels')) := by
  rw [Value.toBoolean_relocate hlabels, Value.toBoolean_relocate hlabels]
  refine (Outcomes.of_eq rfl).of_bind fun flag flag' hflag => ?_
  subst hflag
  cases operator.decided? flag with
  | some decided => exact .ok (Relocation.values_boolean decided)
  | none =>
    refine (Outcomes.of_eq rfl).of_bind fun second second' hsecond => ?_
    subst hsecond
    exact .ok (Relocation.values_boolean second)

theorem result_relocate (hlabels : ∀ ref, labels' (relocation.ref ref) = labels ref)
    (operator : BinaryOperator) (left right : Value) :
    Outcomes relocation.Values (operator.result labels left right)
      (operator.result labels' (left.relocate relocation) (right.relocate relocation)) := by
  cases operator with
  | plus => exact add_relocate hlabels left right
  | minus =>
    refine arithmetic_relocate hlabels _ _ (fun first second => ?_) left right
    rw [Binary64.subtract_remark, Binary64.remark_subtract relocation.mark_zero]
  | times =>
    refine arithmetic_relocate hlabels _ _ (fun first second => ?_) left right
    rw [Binary64.multiply_remark, Binary64.remark_multiply relocation.mark_zero]
  | divided => exact divide_relocate hlabels left right
  | modulo => exact remainder_relocate hlabels left right
  | equal =>
    refine (equals_relocate hlabels left right).of_map fun first second hverdict => ?_
    subst hverdict
    exact Relocation.values_boolean _
  | notEqual =>
    refine (equals_relocate hlabels left right).of_map fun first second hverdict => ?_
    subst hverdict
    exact Relocation.values_boolean _
  | greater =>
    refine compare_relocate hlabels _ (fun first second => ?_) left right
    rw [Binary64.less_remark_left, Binary64.less_remark_right]
  | less =>
    refine compare_relocate hlabels _ (fun first second => ?_) left right
    rw [Binary64.less_remark_left, Binary64.less_remark_right]
  | atLeast =>
    exact compare_relocate hlabels (fun left right => right.atMost left)
      (fun first second => Binary64.atMost_remark _ _) left right
  | atMost =>
    exact compare_relocate hlabels _ (fun first second => Binary64.atMost_remark _ _) left right
  | or => exact decide_relocate hlabels .or left right
  | and => exact decide_relocate hlabels .and left right

theorem apply_relocate (hlabels : ∀ ref, labels' (relocation.ref ref) = labels ref)
    (operator : BinaryOperator) (left right : Value) :
    Outcomes relocation.Values (operator.apply labels left right)
      (operator.apply labels' (left.relocate relocation) (right.relocate relocation)) := by
  have hresult := result_relocate hlabels operator left right
  unfold apply
  rw [Value.summary_relocate hlabels, Value.summary_relocate hlabels]
  generalize operator.result labels left right = outcome,
    operator.result labels' (left.relocate relocation) (right.relocate relocation) = outcome'
    at hresult ⊢
  cases hresult with
  | ok hvalues => exact .ok hvalues
  | error fault => cases fault <;> exact .error _

end BinaryOperator

namespace UnaryOperator

theorem apply_negative_of_not_integer (labels : Labels) {operand : Value}
    (hoperand : ∀ number, operand ≠ .integer number) :
    negative.apply labels operand = do return .float (← operand.toFloat labels).negate := by
  unfold apply
  dsimp only
  split
  · exact absurd rfl (hoperand _)
  · rfl

theorem relocate_eq_integer_iff {value : Value} {number : Int} :
    value.relocate relocation = .integer number ↔ value = .integer number := by
  cases value <;> simp [Value.relocate]

theorem apply_relocate (hlabels : ∀ ref, labels' (relocation.ref ref) = labels ref)
    (operator : UnaryOperator) (operand : Value) :
    Outcomes relocation.Values (operator.apply labels operand)
      (operator.apply labels' (operand.relocate relocation)) := by
  cases operator with
  | not =>
    unfold apply
    dsimp only
    rw [Value.toBoolean_relocate hlabels]
    refine (Outcomes.of_eq rfl).of_bind fun flag flag' hflag => ?_
    subst hflag
    exact .ok (Relocation.values_boolean _)
  | negative =>
    by_cases hinteger : ∃ number, operand = .integer number
    · obtain ⟨number, rfl⟩ := hinteger
      exact .ok (Relocation.values_integer (-number))
    · have hoperand : ∀ number, operand ≠ .integer number := not_exists.mp hinteger
      rw [apply_negative_of_not_integer labels hoperand,
        apply_negative_of_not_integer labels' fun number =>
          relocate_eq_integer_iff.not.mpr (hoperand number)]
      refine (Value.toFloat_relocate hlabels operand).of_bind fun number number' hnumber => ?_
      subst hnumber
      rw [Binary64.negate_remark]
      exact .ok <| Relocation.values_float_of_eq
        (Binary64.remark_negate relocation.mark_zero number)

end UnaryOperator

end Patchwork
