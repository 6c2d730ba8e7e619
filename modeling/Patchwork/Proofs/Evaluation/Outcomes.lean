import Patchwork.Evaluation
import Patchwork.Proofs.Evaluation.Operators
import Patchwork.Proofs.Mod.FieldValues

/-!
# Outcomes of computations

What a computation without effects gives, and what it fails with.  The operators and the
coercions give data, in which there are no groups and no closures.  They fail with
ordinary faults: none is about an argument that is missing or about a left side of an
arrow that is no group.
-/

namespace Patchwork

/-! ## Ordinary faults -/

/-- A fault about something else than a missing argument or the left side of an arrow. -/
def EvaluationFault.Ordinary : EvaluationFault → Prop
  | .missingArgument _ => False
  | .expected expectation purpose _ => expectation = .group → purpose ≠ "left side of ->"
  | .insideLambda _ cause => cause.Ordinary
  | _ => True

/-- A fault that is no evaluation fault or an ordinary one. -/
def Fault.Ordinary : Fault → Prop
  | .evaluation fault => fault.Ordinary
  | _ => True

theorem Fault.OfOperands.ordinary {fault : Fault} (hfault : fault.OfOperands) :
    fault.Ordinary := by
  cases hfault <;> trivial

theorem Fault.OfOperator.ordinary {fault : Fault} (hfault : fault.OfOperator) :
    fault.Ordinary := by
  cases hfault <;> trivial

/-! ## Data -/

mutual

/-- A value with no groups, no closures and no tables in it. -/
def Value.Data : Value → Prop
  | .array items => AllData items
  | .group _ => False
  | .closure .. => False
  | .table _ => False
  | _ => True

/-- Values that are all data. -/
def AllData : List Value → Prop
  | [] => True
  | item :: rest => item.Data ∧ AllData rest

end

theorem allData_iff {items : List Value} : AllData items ↔ ∀ item ∈ items, item.Data := by
  induction items with
  | nil => exact ⟨fun _ _ hitem => (nomatch hitem), fun _ => trivial⟩
  | cons item rest ih => rw [AllData, ih, List.forall_mem_cons]

/-! ## Meeting a condition -/

/-- A computation gives something with a property, or fails with an ordinary fault. -/
structure Meets {Result : Type} (outcome : Except Fault Result) (holds : Result → Prop) :
    Prop where
  gives : ∀ result, outcome = .ok result → holds result
  ordinary : ∀ fault, outcome = .error fault → fault.Ordinary

section

variable {Result Other : Type} {outcome : Except Fault Result} {holds weaker : Result → Prop}
  {holdsNext : Other → Prop}

theorem meets_ok {result : Result} (hresult : holds result) : Meets (.ok result) holds where
  gives := by
    rintro given ⟨⟩
    exact hresult
  ordinary := nofun

theorem meets_error {fault : Fault} (hfault : fault.Ordinary) :
    Meets (.error fault : Except Fault Result) holds where
  gives := nofun
  ordinary := by
    rintro other ⟨⟩
    exact hfault

theorem Ends.meets {fails : Fault → Prop} (hends : Ends holds fails outcome)
    (hordinary : ∀ fault, fails fault → fault.Ordinary) : Meets outcome holds := by
  cases hends with
  | ok hresult => exact meets_ok hresult
  | error hfault => exact meets_error (hordinary _ hfault)

theorem Meets.mono (hmeets : Meets outcome holds)
    (hweaker : ∀ result, holds result → weaker result) : Meets outcome weaker where
  gives result hresult := hweaker result (hmeets.gives result hresult)
  ordinary := hmeets.ordinary

theorem Meets.any (hmeets : Meets outcome holds) : Meets outcome fun _ => True :=
  hmeets.mono fun _ _ => trivial

theorem Meets.bind {next : Result → Except Fault Other} (hfirst : Meets outcome holds)
    (hnext : ∀ result, holds result → Meets (next result) holdsNext) :
    Meets (outcome >>= next) holdsNext := by
  cases outcome with
  | ok result => exact hnext result (hfirst.gives result rfl)
  | error fault => exact meets_error (hfirst.ordinary fault rfl)

/-- A step whose result has no property that the rest depends on. -/
theorem Meets.andThen {next : Result → Except Fault Other} (hfirst : Meets outcome holds)
    (hnext : ∀ result, Meets (next result) holdsNext) : Meets (outcome >>= next) holdsNext :=
  hfirst.bind fun result _ => hnext result

theorem Meets.map {make : Result → Other} (hmeets : Meets outcome holds)
    (hmake : ∀ result, holds result → holdsNext (make result)) :
    Meets (outcome.map make) holdsNext := by
  cases outcome with
  | ok result => exact meets_ok (hmake result (hmeets.gives result rfl))
  | error fault => exact meets_error (hmeets.ordinary fault rfl)

theorem meets_mapM {Item : Type} {step : Item → Except Fault Result}
    {items : List Item} (hstep : ∀ item ∈ items, Meets (step item) holds) :
    Meets (items.mapM step) fun results => ∀ result ∈ results, holds result := by
  induction items with
  | nil => exact meets_ok fun _ hresult => nomatch hresult
  | cons item rest ih =>
    rw [List.mapM_cons]
    refine (hstep item List.mem_cons_self).bind fun first hfirst => ?_
    refine (ih fun other hother => hstep other (List.mem_cons_of_mem _ hother)).bind
      fun others hothers => ?_
    exact meets_ok (List.forall_mem_cons.mpr ⟨hfirst, hothers⟩)

end

/-! ## Coercions -/

namespace Value

variable (labels : Labels)

theorem meets_toFloat (value : Value) : Meets (value.toFloat labels) fun _ => True :=
  (ends_toFloat labels value).meets fun _ => Fault.OfOperands.ordinary

theorem meets_toInteger (value : Value) : Meets (value.toInteger labels) fun _ => True :=
  (ends_toInteger labels value).meets fun _ => Fault.OfOperands.ordinary

theorem meets_toBoolean (value : Value) : Meets (value.toBoolean labels) fun _ => True :=
  (ends_toBoolean labels value).meets fun _ => Fault.OfOperands.ordinary

theorem meets_expectString (purpose : String) (value : Value) :
    Meets (value.expectString labels purpose) fun _ => True := by
  cases value <;> first | exact meets_ok trivial | exact meets_error nofun

theorem meets_expectBoolean (purpose : String) (value : Value) :
    Meets (value.expectBoolean labels purpose) fun _ => True := by
  cases value <;> first | exact meets_ok trivial | exact meets_error nofun

theorem meets_expectGroup {purpose : String} (hpurpose : purpose ≠ "left side of ->")
    (value : Value) :
    Meets (value.expectGroup labels purpose) fun group => value = .group group := by
  cases value <;> first | exact meets_ok rfl | exact meets_error fun _ => hpurpose

theorem meets_expectArray (purpose : String) (value : Value) :
    Meets (value.expectArray labels purpose) fun items => value = .array items := by
  cases value <;> first | exact meets_ok rfl | exact meets_error nofun

theorem meets_expectClosure (purpose : String) (value : Value) :
    Meets (value.expectClosure labels purpose) fun closure => value =
      .closure closure.identity closure.parameter closure.body closure.record := by
  cases value <;> first | exact meets_ok rfl | exact meets_error nofun

theorem meets_expectInteger (purpose : String) (value : Value) :
    Meets (value.expectInteger labels purpose) fun _ => True := by
  unfold expectInteger
  split
  · exact meets_toInteger labels value
  · exact meets_error nofun

theorem meets_expectIntegers (purpose : String) (value : Value) :
    Meets (value.expectIntegers labels purpose) fun _ => True :=
  (meets_expectArray labels purpose value).andThen fun _ =>
    (meets_mapM fun item _ => meets_expectInteger labels _ item).any

theorem data_ofNumber (number : Binary64) : (Value.ofNumber number).Data := by
  unfold Value.ofNumber
  split <;> trivial

mutual

theorem meets_ofPlain (plain : Plain) : Meets (ofPlain plain) Data := by
  cases plain with
  | list items =>
    rw [ofPlain]
    exact (meets_ofPlainItems items).map fun _ hitems => hitems
  | mapping entries => exact meets_error trivial
  | _ => exact meets_ok trivial

theorem meets_ofPlainItems (plains : List Plain) : Meets (ofPlainItems plains) AllData := by
  cases plains with
  | nil => exact meets_ok trivial
  | cons plain rest =>
    obtain ⟨hgives, hordinary⟩ := meets_ofPlain plain
    rw [ofPlainItems]
    cases hvalue : ofPlain plain with
    | error fault => exact meets_error (hordinary fault hvalue)
    | ok value =>
      exact (meets_ofPlainItems rest).map fun _ hitems => ⟨hgives value hvalue, hitems⟩

end

end Value

/-! ## Operators -/

namespace BinaryOperator

open Value

variable (labels : Labels)

theorem data_of_isNumber {value : Value} (hvalue : value.IsNumber) : value.Data := by
  cases value with
  | integer | float => trivial
  | _ => exact hvalue.elim

theorem data_of_gives {operator : BinaryOperator} {left right value : Value}
    (hgives : operator.Gives labels left right value) : value.Data := by
  cases operator with
  | plus =>
    cases hgives with
    | together => trivial
    | number _ _ hvalue => exact data_of_isNumber hvalue
  | minus | times | divided => exact data_of_isNumber hgives
  | _ =>
    cases hgives
    trivial

theorem meets_apply (operator : BinaryOperator) (left right : Value) :
    Meets (operator.apply labels left right) Data :=
  ((ends_apply labels operator left right).meets fun _ => Fault.OfOperator.ordinary).mono
    fun _ => data_of_gives labels

end BinaryOperator

theorem UnaryOperator.meets_apply (labels : Labels) (operator : UnaryOperator)
    (operand : Value) : Meets (operator.apply labels operand) Value.Data := by
  cases operator with
  | not => exact (Value.meets_toBoolean labels operand).andThen fun _ => meets_ok trivial
  | negative =>
    unfold UnaryOperator.apply
    dsimp only
    split
    · exact meets_ok trivial
    · exact (Value.meets_toFloat labels _).andThen fun _ => meets_ok trivial

/-! ## Looking up -/

theorem Environment.meets_tableEntry (environment : Environment) (table key : String) :
    Meets (environment.tableEntry table key) fun node =>
      environment.tableEntry table key = .ok node := by
  cases hentry : environment.tableEntry table key with
  | ok node => exact meets_ok rfl
  | error fault =>
    unfold tableEntry at hentry
    split at hentry
    · cases hentry
      exact meets_error trivial
    · split at hentry <;> cases hentry
      exact meets_error trivial

theorem Environment.meets_group (environment : Environment) (name : String) :
    Meets (environment.group name) fun group => environment.group name = .ok group := by
  cases hgroup : environment.group name with
  | ok group => exact meets_ok rfl
  | error fault =>
    unfold Environment.group at hgroup
    split at hgroup <;> cases hgroup <;> exact meets_error trivial

theorem Procedure.meets_pairs (targets sources : Group) (pairwise : Bool) :
    Meets (Procedure.pairs targets sources pairwise) fun paired =>
      Procedure.pairs targets sources pairwise = .ok paired := by
  cases hpaired : Procedure.pairs targets sources pairwise with
  | ok paired => exact meets_ok rfl
  | error fault =>
    unfold Procedure.pairs at hpaired
    split at hpaired
    · split at hpaired <;> cases hpaired
      exact meets_error trivial
    · cases hpaired

/-! ## Field values -/

theorem FieldType.meets_convert (type : FieldType) (text : String) :
    Meets (type.convert text) fun _ => True :=
  ((ends_convert type text).meets fun _ hfault => by cases hfault <;> trivial).any

end Patchwork
