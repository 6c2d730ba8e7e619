import Patchwork.Evaluation
import Patchwork.Proofs.Evaluation.Yields

/-!
# Scopes and substitution

The body of a closure is evaluated in the scope of its parameter.  The main
statement of this file says that a scope does what substitution does: evaluating
an expression in a scope gives a result exactly when evaluating the expression
with the parameters in reach replaced by their values does, with the same result
and the same world afterwards.  The arguments of a function are evaluated before
the call in one case and by the function itself in the other, so the functions
have to be looked at one by one.
-/

namespace Patchwork

open Eval

/-! ## Expectations do not depend on labels -/

namespace Value

variable {labels : Labels} {purpose : String} {value : Value}

@[simp]
theorem expectString_eq_ok {text : String} :
    value.expectString labels purpose = .ok text ↔ value = .string text := by
  cases value <;> simp [expectString]

@[simp]
theorem expectGroup_eq_ok {group : Group} :
    value.expectGroup labels purpose = .ok group ↔ value = .group group := by
  cases value <;> simp [expectGroup]

@[simp]
theorem expectArray_eq_ok {items : List Value} :
    value.expectArray labels purpose = .ok items ↔ value = .array items := by
  cases value <;> simp [expectArray]

theorem toInteger_eq_ok_congr (other : Labels) {number : Int} :
    value.toInteger labels = .ok number ↔ value.toInteger other = .ok number := by
  cases value with
  | float float => cases hround : float.round? <;> simp [toInteger, hround]
  | string text =>
    simp only [toInteger]
    split <;> simp_all
  | _ => simp [toInteger]

theorem expectInteger_eq_ok_congr (other : Labels) {number : Int} :
    value.expectInteger labels purpose = .ok number ↔
      value.expectInteger other purpose = .ok number := by
  simp only [expectInteger]
  split
  · exact toInteger_eq_ok_congr other
  · simp

end Value

/-! ## Arguments evaluated before a call -/

/-- Arguments that have been evaluated already. -/
def constants (values : List Value) : List Argument :=
  values.map fun value _ => return value

/-- Evaluates arguments one after the other. -/
def argumentValues (record : Option RecordRef) : List Argument → Eval (List Value)
  | [] => return []
  | argument :: rest => do
    let value ← argument record
    return value :: (← argumentValues record rest)

/-- A check between two evaluations may as well come after both of them. -/
theorem SameYields.check_second {Checked Result : Type} (first second : Eval Value)
    (check : Value → Labels → Except Fault Checked)
    (next : Checked → Value → Eval Result)
    (hcheck : ∀ value labels other checked,
      check value labels = .ok checked ↔ check value other = .ok checked) :
    SameYields
      (do
        let value ← first
        let other ← second
        let checked ← labelled (check value)
        next checked other)
      (do
        let value ← first
        let checked ← labelled (check value)
        let other ← second
        next checked other) := by
  refine SameYields.bind (SameYields.refl first) fun value => ?_
  intro before result after
  simp only [yields_bind, yields_labelled]
  constructor
  · rintro ⟨other, between, hsecond, checked, _, ⟨hchecked, rfl⟩, hnext⟩
    exact ⟨checked, before, ⟨(hcheck _ _ _ _).mp hchecked, rfl⟩, other, between,
      hsecond, hnext⟩
  · rintro ⟨checked, _, ⟨hchecked, rfl⟩, other, between, hsecond, hnext⟩
    exact ⟨other, between, hsecond, checked, between,
      ⟨(hcheck _ _ _ _).mp hchecked, rfl⟩, hnext⟩

namespace Function

@[simp]
theorem argument_zero (name : String) (first : Argument) (rest : List Argument) :
    Eval.argument name (first :: rest) 0 = first := rfl

@[simp]
theorem argument_one (name : String) (first second : Argument) (rest : List Argument) :
    Eval.argument name (first :: second :: rest) 1 = second := rfl

/-- A function of one argument gives the same results when its argument is
evaluated before the call. -/
theorem result_constant (function : Function) (harity : function.arity = .exactly 1)
    (record : Option RecordRef) (argument : Argument) :
    SameYields
      (do function.result record (constants [← argument record]))
      (function.result record [argument]) := by
  cases function with
  | getField =>
    cases record with
    | none =>
      apply SameYields.of_never
      · simp [yields_bind, result, requireRecord]
      · simp [yields_bind, result, requireRecord]
    | some ref =>
      simp only [result, requireRecord, constants, List.map_cons, argument_zero, pure_bind]
      rfl
  | toInt | toFloat | min | max | count =>
    simp only [result, constants, List.map_cons, argument_zero, pure_bind]
    rfl
  | _ => simp [arity, Arity.exactly] at harity

/-- A function of two arguments gives the same results when its arguments are
evaluated before the call. -/
theorem result_constants (function : Function) (harity : function.arity = .exactly 2)
    (record : Option RecordRef) (first second : Argument) :
    SameYields
      (do function.result record (constants [← first record, ← second record]))
      (function.result record [first, second]) := by
  cases function with
  | arrIndex =>
    simp only [result, constants, List.map_cons, argument_zero, argument_one, pure_bind]
    exact SameYields.check_second _ _ _ _ (by simp)
  | randomBetweenInts =>
    simp only [result, constants, List.map_cons, argument_zero, argument_one, pure_bind]
    exact SameYields.check_second _ _ _ _ fun _ _ _ _ => Value.expectInteger_eq_ok_congr _
  | containsExact | containsFolded =>
    simp only [result, constants, List.map_cons, argument_zero, argument_one, pure_bind]
    exact SameYields.check_second _ _ _ _ (by simp)
  | clone =>
    simp only [result, constants, List.map_cons, argument_zero, argument_one, pure_bind]
    exact SameYields.check_second _ _ _ _ (by simp)
  | _ => simp [arity, Arity.exactly] at harity

theorem arity_eq_exactly (function : Function) :
    function.arity = .exactly 0 ∨ function.arity = .exactly 1 ∨
      function.arity = .exactly 2 := by
  cases function <;> simp [arity]

/-- A call with an accepted number of arguments gives the same results when all
its arguments are evaluated before it. -/
theorem apply_argumentValues (function : Function) (record : Option RecordRef)
    (arguments : List Argument) (haccepts : function.arity.Accepts arguments.length) :
    SameYields
      (do function.apply record (constants (← argumentValues record arguments)))
      (function.apply record arguments) := by
  suffices hresult : SameYields
      (do function.result record (constants (← argumentValues record arguments)))
      (function.result record arguments) by
    simp only [apply, ← bind_assoc]
    exact hresult.bind fun _ => SameYields.refl _
  obtain harity | harity | harity := function.arity_eq_exactly
  · have hlength : arguments.length = 0 := by
      simpa [harity, Arity.exactly, Arity.Accepts] using haccepts
    obtain rfl := List.eq_nil_of_length_eq_zero hlength
    simp only [argumentValues, pure_bind]
    rfl
  · have hlength : arguments.length = 1 := by
      rw [harity] at haccepts
      simp only [Arity.exactly, Arity.Accepts, Option.mem_some_iff, forall_eq'] at haccepts
      omega
    obtain ⟨argument, rfl⟩ := List.length_eq_one_iff.mp hlength
    simp only [argumentValues, pure_bind, bind_assoc]
    exact function.result_constant harity record argument
  · have hlength : arguments.length = 2 := by
      rw [harity] at haccepts
      simp only [Arity.exactly, Arity.Accepts, Option.mem_some_iff, forall_eq'] at haccepts
      omega
    match arguments, hlength with
    | [first, second], _ =>
      simp only [argumentValues, pure_bind, bind_assoc]
      exact function.result_constants harity record first second

end Function

/-! ## Substitution -/

mutual

/-- The expression with every parameter in reach of the scope replaced by its
value.  The scope reaches through operators, arrays and the arguments of
functions. -/
def Node.substitute (scope : Scope) : Node → Node
  | .parameter name =>
    match scope.get? name with
    | some value => .literal value
    | none => .parameter name
  | .unary operator operand => .unary operator (operand.substitute scope)
  | .binary operator left right =>
    .binary operator (left.substitute scope) (right.substitute scope)
  | .array elements => .array (substituteAll scope elements)
  | .call function arguments => .call function (substituteAll scope arguments)
  | node => node

/-- The expressions of a list with the parameters in reach replaced. -/
def substituteAll (scope : Scope) : List Node → List Node
  | [] => []
  | node :: rest => node.substitute scope :: substituteAll scope rest

end

mutual

/-- Every function call in reach of a scope has a number of arguments that the
function accepts. -/
def Node.AcceptsCalls : Node → Prop
  | .unary _ operand => operand.AcceptsCalls
  | .binary _ left right => left.AcceptsCalls ∧ right.AcceptsCalls
  | .array elements => AllAcceptCalls elements
  | .call function arguments =>
    function.arity.Accepts arguments.length ∧ AllAcceptCalls arguments
  | _ => True

/-- The same of the expressions of a list. -/
def AllAcceptCalls : List Node → Prop
  | [] => True
  | node :: rest => node.AcceptsCalls ∧ AllAcceptCalls rest

end

theorem length_substituteAll (scope : Scope) (nodes : List Node) :
    (substituteAll scope nodes).length = nodes.length := by
  induction nodes with
  | nil => rfl
  | cons node rest ih => simp [substituteAll, ih]

theorem length_argumentsWith (deeper : Deeper) (setting : Setting) (nodes : List Node) :
    (argumentsWith deeper setting nodes).length = nodes.length := by
  induction nodes with
  | nil => rfl
  | cons node rest ih => simp [argumentsWith, ih]

/-- A fault inside a lambda is put down to a node, and a result stays as it is. -/
theorem sameYields_insideLambda {Result : Type} (node : Node) (evaluation : Eval Result) :
    SameYields (insideLambda node evaluation) evaluation := by
  intro before result after
  simp only [Yields, insideLambda, tryCatch, tryCatchThe, MonadExceptOf.tryCatch,
    ExceptT.tryCatch, ExceptT.run_mk, bind, StateT.bind]
  cases hrun : evaluation.run before with
  | mk outcome between =>
    change (evaluation before) = _ at hrun
    rw [hrun]
    cases outcome with
    | ok given => rfl
    | error fault =>
      constructor
      · intro hyields
        cases fault <;> cases hyields
      · intro hyields
        cases hyields

theorem sameYields_combine (operator : BinaryOperator) (left : Value)
    {right other : Eval Value} (hright : SameYields right other) :
    SameYields (combine operator left right) (combine operator left other) := by
  by_cases hlogical : operator.isLogical = true
  · simp only [combine, hlogical, if_true, logical]
    refine SameYields.bind (SameYields.refl _) fun flag => ?_
    cases operator.decided? flag with
    | some decided => exact SameYields.refl _
    | none => exact hright.bind fun _ => SameYields.refl _
  · simp only [combine, hlogical]
    exact hright.bind fun _ => SameYields.refl _

variable (deeper : Deeper) (setting : Setting) (scope : Scope)

/-- A lambda in an array becomes a closure like any other lambda. -/
theorem sameYields_elementsIn_cons (element : Node) (rest : List Node)
    (record : Option RecordRef) :
    SameYields (elementsIn deeper setting scope (element :: rest) record)
      (do
        let value ← element.evaluateIn deeper setting scope record
        return value :: (← elementsIn deeper setting scope rest record)) := by
  cases element with
  | lambda parameter body =>
    rw [elementsIn, Node.evaluateIn, Node.evaluateWith]
    · refine SameYields.bind ?_ fun _ => SameYields.refl _
      exact (sameYields_insideLambda _ _).symm
    all_goals simp
  | _ =>
    rw [elementsIn]
    simp

mutual

/-- A scope does what substitution does, at every node. -/
theorem Node.sameYields_evaluateIn : (node : Node) → node.AcceptsCalls →
    (record : Option RecordRef) →
    SameYields (node.evaluateIn deeper setting scope record)
      ((node.substitute scope).evaluateWith deeper setting record)
  | .parameter name, _, record => by
    simp only [Node.evaluateIn, Scope.value, Node.substitute]
    cases scope.get? name with
    | some value => exact SameYields.refl _
    | none => apply SameYields.of_never <;> simp [Node.evaluateWith]
  | .unary operator operand, haccepts, record => by
    simp only [Node.evaluateIn, Node.substitute, Node.evaluateWith]
    rw [Node.AcceptsCalls] at haccepts
    exact (Node.sameYields_evaluateIn operand haccepts record).bind fun _ =>
      SameYields.refl _
  | .binary operator left right, haccepts, record => by
    simp only [Node.evaluateIn, Node.substitute, Node.evaluateWith]
    rw [Node.AcceptsCalls] at haccepts
    exact (Node.sameYields_evaluateIn left haccepts.1 record).bind fun value =>
      sameYields_combine operator value
        (Node.sameYields_evaluateIn right haccepts.2 record)
  | .array elements, haccepts, record => by
    simp only [Node.evaluateIn, Node.substitute, Node.evaluateWith]
    rw [Node.AcceptsCalls] at haccepts
    exact (sameYields_elementsIn elements haccepts record).bind fun _ =>
      SameYields.refl _
  | .call function arguments, haccepts, record => by
    simp only [Node.evaluateIn, Node.substitute, Node.evaluateWith]
    rw [Node.AcceptsCalls] at haccepts
    refine SameYields.trans ?_ (function.apply_argumentValues record _ ?_)
    · exact (sameYields_valuesIn arguments haccepts.2 record).bind fun _ =>
        SameYields.refl _
    · rw [length_argumentsWith, length_substituteAll]
      exact haccepts.1
  | .literal _, _, record | .test _ _, _, record | .tableName _, _, record
  | .index _ _, _, record | .group _, _, record | .procedure _ _ _, _, record
  | .pipe _ _ _ _, _, record | .lambda _ _, _, record | .command _ _, _, record => by
    simp only [Node.evaluateIn, Node.substitute]
    exact sameYields_insideLambda _ _

theorem sameYields_elementsIn : (nodes : List Node) → AllAcceptCalls nodes →
    (record : Option RecordRef) →
    SameYields (elementsIn deeper setting scope nodes record)
      (elementsWith deeper setting (substituteAll scope nodes) record)
  | [], _, record => by
    simp only [elementsIn, substituteAll, elementsWith]
    exact SameYields.refl _
  | node :: rest, haccepts, record => by
    rw [AllAcceptCalls] at haccepts
    refine SameYields.trans (sameYields_elementsIn_cons deeper setting scope node rest record) ?_
    simp only [substituteAll, elementsWith]
    refine (Node.sameYields_evaluateIn node haccepts.1 record).bind fun _ => ?_
    exact (sameYields_elementsIn rest haccepts.2 record).bind fun _ => SameYields.refl _

theorem sameYields_valuesIn : (nodes : List Node) → AllAcceptCalls nodes →
    (record : Option RecordRef) →
    SameYields (valuesIn deeper setting scope nodes record)
      (argumentValues record (argumentsWith deeper setting (substituteAll scope nodes)))
  | [], _, record => by
    simp only [valuesIn, substituteAll, argumentsWith, argumentValues]
    exact SameYields.refl _
  | node :: rest, haccepts, record => by
    rw [AllAcceptCalls] at haccepts
    simp only [valuesIn, substituteAll, argumentsWith, argumentValues]
    refine (Node.sameYields_evaluateIn node haccepts.1 record).bind fun _ => ?_
    exact (sameYields_valuesIn rest haccepts.2 record).bind fun _ => SameYields.refl _

end

/-- Evaluating an expression in a scope gives a result exactly when evaluating
the expression with the parameters in reach replaced by their values does, and
then both give the same result and lead to the same world. -/
theorem evaluateIn_yields_iff_substitute (node : Node) (haccepts : node.AcceptsCalls)
    (record : Option RecordRef) (before after : World) (result : Value) :
    (node.evaluateIn deeper setting scope record).Yields before result after ↔
      ((node.substitute scope).evaluateWith deeper setting record).Yields
        before result after :=
  Node.sameYields_evaluateIn deeper setting scope node haccepts record
    before result after

/-- The sum of a parameter and the first element of an array, whose second
element is drawn at random. -/
def drawingSum : Node :=
  .binary .plus (.parameter "x")
    (.call .arrIndex
      [.array [.parameter "x",
        .call .randomBetweenInts [.literal (.integer 0), .parameter "x"]],
        .literal (.integer 0)])

theorem evaluateIn_drawingSum_yields_four :
    drawingSum.AcceptsCalls ∧
      ((drawingSum.substitute [("x", .integer 2)]).evaluateWith
        (deeperAt {} nestingLimit) {} none).Yields
        {} (.integer 4) { draws := (Draws.seeded none).advance } := by
  have haccepts : drawingSum.AcceptsCalls := by
    simp [drawingSum, Node.AcceptsCalls, AllAcceptCalls, Function.arity, Arity.exactly,
      Arity.Accepts]
  exact ⟨haccepts, (evaluateIn_yields_iff_substitute (deeperAt {} nestingLimit) {}
    [("x", .integer 2)] drawingSum haccepts none _ _ _).mp rfl⟩

end Patchwork
