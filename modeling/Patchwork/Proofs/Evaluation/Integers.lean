import Patchwork.Expression.Operator
import Patchwork.Proofs.Number.Nearest

/-!
# Operators on integers

Integers are equal exactly when they are the same, however large they are.  The comparisons go
through the floating-point numbers nearest to the integers.  So they follow the order of the
integers, but do not tell apart two of them that share their nearest number, and they fail
where there is none.

Between operands that count as integers, division and remainder describe the same division:
the remainder of the division truncated toward zero is zero exactly when the quotient is an
integer, which division then gives.  Otherwise division gives the floating-point number nearest
to the quotient, and it fails when there is none.
-/

namespace Patchwork

variable (labels : Labels)

namespace Value

theorem exists_toFloat_integer {number : Int} (hnumber : number.natAbs < roundingLimit) :
    ∃ rounded, (Value.integer number).toFloat labels = .ok rounded ∧
      rounded.IsInteger (nearestInteger number) := by
  obtain ⟨rounded, hrounded, hinteger⟩ := Binary64.exists_ofInt? hnumber
  exact ⟨rounded, by rw [toFloat, hrounded]; rfl, hinteger⟩

theorem toFloat_integer_of_le {number : Int} (hnumber : roundingLimit ≤ number.natAbs) :
    (Value.integer number).toFloat labels = .error (.number .integerTooLarge) := by
  rw [toFloat, Binary64.ofInt?_eq_none hnumber]
  rfl

end Value

namespace BinaryOperator

/-- What an operator gives between two integers. -/
def verdict (operator : BinaryOperator) (left right : Int) : Except Fault Value :=
  operator.apply labels (.integer left) (.integer right)

/-- An operator between two integers gives `true`. -/
def Holds (operator : BinaryOperator) (left right : Int) : Prop :=
  operator.verdict labels left right = .ok (.boolean true)

/-- The operators that put numbers in order. -/
def comparisons : List BinaryOperator := [less, greater, atMost, atLeast]

/-- Exactly one of less, equal and greater holds between two integers. -/
def Ordered (left right : Int) : Prop :=
  (less.Holds labels left right ∧ ¬ equal.Holds labels left right ∧
      ¬ greater.Holds labels left right) ∨
    (¬ less.Holds labels left right ∧ equal.Holds labels left right ∧
      ¬ greater.Holds labels left right) ∨
    (¬ less.Holds labels left right ∧ ¬ equal.Holds labels left right ∧
      greater.Holds labels left right)

theorem apply_of_result {operator : BinaryOperator} {left right value : Value}
    (hresult : operator.result labels left right = .ok value) :
    operator.apply labels left right = .ok value := by
  rw [apply, hresult]

theorem apply_of_number_fault {operator : BinaryOperator} {left right : Value}
    {cause : NumberFault} (hresult : operator.result labels left right = .error (.number cause)) :
    operator.apply labels left right =
      .error (.evaluation
        (.cannotApply operator.symbol (left.summary labels) (right.summary labels) cause)) := by
  rw [apply, hresult]

variable {left right : Int}

/-- Equality does not go through floating-point numbers. -/
theorem verdict_equal (left right : Int) :
    equal.verdict labels left right = .ok (.boolean (decide (left = right))) :=
  apply_of_result labels rfl

/-! ## Comparisons -/

section

variable {operator : BinaryOperator} {holds : Binary64 → Binary64 → Bool} {test : Int → Int → Bool}

/-- A comparison of floating-point numbers is one of the integers nearest to the operands. -/
theorem verdict_of_compare (hoperator : operator.result labels = compare labels holds)
    (htest : ∀ {left right : Binary64} {first second : Int}, left.IsInteger first →
      right.IsInteger second → holds left right = test first second)
    (hleft : left.natAbs < roundingLimit) (hright : right.natAbs < roundingLimit) :
    operator.verdict labels left right =
      .ok (.boolean (test (nearestInteger left) (nearestInteger right))) := by
  obtain ⟨leftRounded, hleftFloat, hleftInteger⟩ := Value.exists_toFloat_integer labels hleft
  obtain ⟨rightRounded, hrightFloat, hrightInteger⟩ := Value.exists_toFloat_integer labels hright
  apply apply_of_result
  rw [hoperator, compare, hleftFloat, hrightFloat, ← htest hleftInteger hrightInteger]
  rfl

theorem compare_of_le (holds : Binary64 → Binary64 → Bool)
    (hbeyond : roundingLimit ≤ left.natAbs ∨ roundingLimit ≤ right.natAbs) :
    compare labels holds (.integer left) (.integer right) =
      .error (.number .integerTooLarge) := by
  rw [compare]
  by_cases hleft : roundingLimit ≤ left.natAbs
  · rw [Value.toFloat_integer_of_le labels hleft]
    rfl
  · obtain ⟨rounded, hrounded, -⟩ := Value.exists_toFloat_integer labels (Nat.lt_of_not_le hleft)
    rw [hrounded, Value.toFloat_integer_of_le labels (hbeyond.resolve_left hleft)]
    rfl

/-- An integer without a floating-point number next to it compares with nothing. -/
theorem verdict_of_le (hbeyond : roundingLimit ≤ left.natAbs ∨ roundingLimit ≤ right.natAbs)
    (hoperator : operator ∈ comparisons) :
    ∃ cause, operator.verdict labels left right = .error (.evaluation cause) := by
  simp only [comparisons, List.mem_cons, List.not_mem_nil, or_false] at hoperator
  obtain rfl | rfl | rfl | rfl := hoperator
  all_goals exact ⟨_, apply_of_number_fault labels (compare_of_le labels _ hbeyond)⟩

theorem holds_iff_of_verdict {flag : Bool} (hoperator : operator ∈ comparisons)
    (hverdict : left.natAbs < roundingLimit → right.natAbs < roundingLimit →
      operator.verdict labels left right = .ok (.boolean flag)) :
    operator.Holds labels left right ↔
      (left.natAbs < roundingLimit ∧ right.natAbs < roundingLimit) ∧ flag = true := by
  rw [Holds]
  by_cases hwithin : left.natAbs < roundingLimit ∧ right.natAbs < roundingLimit
  · rw [hverdict hwithin.1 hwithin.2]
    simp [hwithin]
  · have hbeyond : roundingLimit ≤ left.natAbs ∨ roundingLimit ≤ right.natAbs := by omega
    obtain ⟨cause, hcause⟩ := verdict_of_le labels hbeyond hoperator
    rw [hcause]
    exact iff_of_false nofun fun hholds => hwithin hholds.1

end

theorem verdict_less (hleft : left.natAbs < roundingLimit) (hright : right.natAbs < roundingLimit) :
    less.verdict labels left right =
      .ok (.boolean (decide (nearestInteger left < nearestInteger right))) :=
  verdict_of_compare labels rfl Binary64.IsInteger.less hleft hright

theorem verdict_greater (hleft : left.natAbs < roundingLimit)
    (hright : right.natAbs < roundingLimit) :
    greater.verdict labels left right =
      .ok (.boolean (decide (nearestInteger right < nearestInteger left))) :=
  verdict_of_compare labels rfl (fun hfirst hsecond => hsecond.less hfirst) hleft hright

theorem verdict_atMost (hleft : left.natAbs < roundingLimit)
    (hright : right.natAbs < roundingLimit) :
    atMost.verdict labels left right =
      .ok (.boolean !decide (nearestInteger right < nearestInteger left)) :=
  verdict_of_compare labels rfl Binary64.IsInteger.atMost hleft hright

theorem verdict_atLeast (hleft : left.natAbs < roundingLimit)
    (hright : right.natAbs < roundingLimit) :
    atLeast.verdict labels left right =
      .ok (.boolean !decide (nearestInteger left < nearestInteger right)) :=
  verdict_of_compare labels rfl (fun hfirst hsecond => hsecond.atMost hfirst) hleft hright

theorem holds_equal_iff : equal.Holds labels left right ↔ left = right := by
  rw [Holds, verdict_equal]
  simp

theorem holds_less_iff :
    less.Holds labels left right ↔
      (left.natAbs < roundingLimit ∧ right.natAbs < roundingLimit) ∧
        nearestInteger left < nearestInteger right := by
  rw [holds_iff_of_verdict labels (by decide) (verdict_less labels), decide_eq_true_iff]

theorem holds_greater_iff : greater.Holds labels left right ↔ less.Holds labels right left := by
  rw [holds_iff_of_verdict labels (by decide) (verdict_greater labels), decide_eq_true_iff,
    holds_less_iff, and_comm (a := right.natAbs < roundingLimit)]

/-- What comes out as less is less, because rounding keeps the order. -/
theorem lt_of_holds_less (hless : less.Holds labels left right) : left < right := by
  obtain ⟨-, hnearest⟩ := (holds_less_iff labels).mp hless
  refine Int.lt_of_not_ge fun hge => ?_
  exact Int.not_lt.mpr (nearestInteger_mono hge) hnearest

theorem ordered_iff (hleft : left.natAbs < roundingLimit) (hright : right.natAbs < roundingLimit) :
    Ordered labels left right ↔
      (nearestInteger left = nearestInteger right → left = right) := by
  have hequal : left = right → nearestInteger left = nearestInteger right := congrArg _
  rw [Ordered, holds_greater_iff, holds_less_iff, holds_less_iff, holds_equal_iff]
  omega

theorem less_trans {third : Int} (hfirst : less.Holds labels left right)
    (hsecond : less.Holds labels right third) : less.Holds labels left third := by
  rw [holds_less_iff] at hfirst hsecond ⊢
  exact ⟨⟨hfirst.1.1, hsecond.1.2⟩, Int.lt_trans hfirst.2 hsecond.2⟩

end BinaryOperator

/-! ## Division and remainder -/

variable {left right : Value} {numerator denominator : Int}

namespace Value

/-- A value counts as an integer: it is one, a whole floating-point number or a text that reads
as an integer. -/
inductive CountsAs : Value → Int → Prop
  | integer (number : Int) : CountsAs (.integer number) number
  | float {number : Binary64} {integer : Int} (hnumber : number.IsInteger integer) :
    CountsAs (.float number) integer
  | text {text : String} {integer : Int} (htext : integerOfText? text = some integer) :
    CountsAs (.string text) integer

theorem CountsAs.isIntegerLike {value : Value} {integer : Int} (hvalue : value.CountsAs integer) :
    value.isIntegerLike = true := by
  cases hvalue with
  | integer number => rfl
  | float hnumber => exact hnumber.isWhole
  | text htext => rw [Value.isIntegerLike, htext, Option.isSome_some]

theorem CountsAs.toInteger {value : Value} {integer : Int} (hvalue : value.CountsAs integer) :
    value.toInteger labels = .ok integer := by
  cases hvalue with
  | integer number => rfl
  | float hnumber => rw [Value.toInteger, hnumber.round?]
  | text htext => rw [Value.toInteger, htext]

end Value

/-- A remainder of the division truncated toward zero: smaller than the divisor, with the sign
of the dividend, and a multiple of the divisor away from it. -/
structure IsRemainder (numerator denominator rest : Int) : Prop where
  small : rest.natAbs < denominator.natAbs
  sign : rest = 0 ∨ rest.sign = numerator.sign
  multiple : denominator ∣ numerator - rest

theorem isRemainder_truncatedRemainder (numerator : Int) (hdenominator : denominator ≠ 0) :
    IsRemainder numerator denominator (truncatedRemainder numerator denominator) where
  small := by
    rw [truncatedRemainder, Int.natAbs_tmod]
    exact Nat.mod_lt _ (Int.natAbs_pos.mpr hdenominator)
  sign := by
    rw [truncatedRemainder, Int.sign_tmod, ← Int.dvd_iff_tmod_eq_zero]
    exact (Classical.em _).imp_right fun hrest => if_neg hrest
  multiple := Int.dvd_self_sub_tmod

/-- Division is on floors and remainder on truncation, but they agree on what divides. -/
theorem truncatedRemainder_eq_zero_iff :
    truncatedRemainder numerator denominator = 0 ↔ numerator % denominator = 0 := by
  rw [truncatedRemainder, ← Int.dvd_iff_tmod_eq_zero, Int.dvd_iff_emod_eq_zero]

namespace BinaryOperator

theorem divide_of_countsAs (hleft : left.CountsAs numerator) (hright : right.CountsAs denominator) :
    divide labels left right =
      if denominator = 0 then .error (.evaluation .divisionByZero)
      else if numerator % denominator = 0 then .ok (.integer (numerator / denominator))
      else ((integerQuotient numerator denominator).mapError .number).map .float := by
  unfold divide
  rw [if_pos (by rw [hleft.isIntegerLike, hright.isIntegerLike]; rfl), hleft.toInteger,
    hright.toInteger]
  change (if denominator = 0 then _ else _) = _
  split
  · rfl
  split
  · rfl
  · cases integerQuotient numerator denominator <;> rfl

theorem remainder_of_countsAs (hleft : left.CountsAs numerator)
    (hright : right.CountsAs denominator) :
    remainder labels left right =
      if denominator = 0 then .error (.evaluation .moduloByZero)
      else .ok (.integer (truncatedRemainder numerator denominator)) := by
  unfold remainder
  rw [if_pos (by rw [hleft.isIntegerLike, hright.isIntegerLike]; rfl), hleft.toInteger,
    hright.toInteger]
  rfl

/-- What a division gives whose remainder is not zero. -/
theorem integerQuotient_cases (numerator : Int) (hdenominator : denominator ≠ 0) :
    (roundingLimit * denominator.natAbs ≤ numerator.natAbs ∧
        integerQuotient numerator denominator = .error .quotientTooLarge) ∨
      (numerator.natAbs < roundingLimit * denominator.natAbs ∧
        ∃ quotient, integerQuotient numerator denominator = .ok quotient ∧
          quotient.IsNearest numerator denominator) := by
  have hpositive : 0 < denominator.natAbs := Int.natAbs_pos.mpr hdenominator
  obtain hlt | hle := Nat.lt_or_ge numerator.natAbs (roundingLimit * denominator.natAbs)
  · refine .inr ⟨hlt, _, ?_, Binary64.isNearest_ofRatio hdenominator hlt⟩
    obtain ⟨fits, hratio⟩ := Binary64.ofRatio_of_lt
      (decide (numerator < 0) != decide (denominator < 0)) hpositive hlt
    rw [integerQuotient, hratio]
    rfl
  · refine .inl ⟨hle, ?_⟩
    rw [integerQuotient, Binary64.ofRatio_of_le _ hpositive hle]
    rfl

end BinaryOperator

end Patchwork
