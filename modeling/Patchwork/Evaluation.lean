import Patchwork.Evaluation.Calls
import Patchwork.Evaluation.Procedures
import Patchwork.Expression.Operator

/-!
# Evaluation

Expressions are evaluated against a current record.  Evaluation is structural
on the expression but for two steps: looking up a table entry goes on with the
entry's expression, and calling a closure goes on with the closure's body.
Each of these goes one level deeper, and the depth is bounded.

The body of a closure is evaluated in the scope of its parameter.  The scope
reaches through operators, arrays and the arguments of functions; any other
expression inside the body is evaluated without it.
-/

namespace Patchwork

open Eval

/-- Parameters with their values. -/
abbrev Scope := Entries String Value

/-- The two steps that lead one level deeper. -/
structure Deeper where
  /-- Evaluates the expression of a table entry. -/
  entry : Node → Argument
  /-- Calls a closure. -/
  call : Caller

/-- The result of a logical operator, whose right operand is evaluated only
when it is needed. -/
def logical (operator : BinaryOperator) (left : Value) (right : Eval Value) : Eval Value := do
  let flag ← labelled left.toBoolean
  match operator.decided? flag with
  | some decided => return .boolean decided
  | none => return .boolean (← labelled (← right).toBoolean)

/-- The result of an operator, given its left operand and an evaluation of the
right one. -/
def combine (operator : BinaryOperator) (left : Value) (right : Eval Value) : Eval Value := do
  if operator.isLogical then logical operator left right
  else
    let value ← right
    mark (← labelled fun labels => operator.apply labels left value)

/-- The result of an operator before one operand. -/
def combineOne (operator : UnaryOperator) (operand : Value) : Eval Value := do
  mark (← labelled fun labels => operator.apply labels operand)

/-- The closure of a lambda at the current record. -/
def close (parameter : String) (body : Node) (record : Option RecordRef) : Eval Value := do
  return .closure (← nextMark) parameter body record

/-- The element of an array at a position. -/
def elementAt (items : List Value) (position : Int) : Eval Value :=
  match if position < 0 then none else items[position.toNat]? with
  | some element => return element
  | none => fail (.indexOutOfRange position items.length)

/-- What stands at an index of a value: an element of an array, or the value of
a table entry. -/
def valueAt (deeper : Deeper) (setting : Setting) (target position : Value) : Argument :=
  fun record => do
    match target with
    | .array items => elementAt items (← labelled position.toInteger)
    | .table table =>
      let key := position.display (← labels)
      deeper.entry (← settle (setting.environment.tableEntry table key)) record
    | other => fail (.notIndexable (other.summary (← labels)))

/-- A procedure applied to the group on the left of an arrow, which is also the
result. -/
def pipeInto (deeper : Deeper) (left : Value) (procedure : Procedure)
    (arguments : List Argument) (pairwise : Bool) : Eval Value := do
  let group ← labelled (left.expectGroup · "left side of ->")
  procedure.apply deeper.call arguments group pairwise
  return left

mutual

/-- Evaluates an expression, given the steps that lead one level deeper. -/
def Node.evaluateWith (deeper : Deeper) (setting : Setting) : Node → Argument
  | .literal value, _ => return value
  | .parameter name, _ => fail (.parameterOutside name)
  | .unary operator operand, record => do
    combineOne operator (← Node.evaluateWith deeper setting operand record)
  | .binary operator left right, record => do
    combine operator (← Node.evaluateWith deeper setting left record)
      (Node.evaluateWith deeper setting right record)
  | .call function arguments, record =>
    function.apply record (argumentsWith deeper setting arguments)
  | .test predicate arguments, record => do
    return .boolean (← predicate.apply record (argumentsWith deeper setting arguments))
  | .array elements, record => do
    return .array (← elementsWith deeper setting elements record)
  | .tableName name, _ => return setting.environment.tableOrDefinition name
  | .index target position, record => do
    let target ← Node.evaluateWith deeper setting target record
    let position ← Node.evaluateWith deeper setting position record
    valueAt deeper setting target position record
  | .group group, _ => return .group group
  | .procedure procedure _ _, _ => fail (.noTarget procedure.name)
  | .pipe left procedure arguments pairwise, record => do
    pipeInto deeper (← Node.evaluateWith deeper setting left record) procedure
      (argumentsWith deeper setting arguments) pairwise
  | .lambda parameter body, record => close parameter body record
  | .command command arguments, record => do
    command.apply setting.repository record (argumentsWith deeper setting arguments)
    return .boolean true

/-- The arguments of a call, not yet evaluated. -/
def argumentsWith (deeper : Deeper) (setting : Setting) : List Node → List Argument
  | [] => []
  | argument :: rest =>
    Node.evaluateWith deeper setting argument :: argumentsWith deeper setting rest

/-- Evaluates the elements of an array in order. -/
def elementsWith (deeper : Deeper) (setting : Setting) :
    List Node → Option RecordRef → Eval (List Value)
  | [], _ => return []
  | element :: rest, record => do
    let value ← Node.evaluateWith deeper setting element record
    return value :: (← elementsWith deeper setting rest record)

end

/-- Runs an evaluation inside the body of a lambda: a fault of evaluation is
put down to the node it comes from. -/
def insideLambda {Result : Type} (node : Node) (evaluation : Eval Result) : Eval Result :=
  tryCatch evaluation fun fault =>
    match fault with
    | .evaluation cause => fail (.insideLambda node.kindName cause)
    | other => throw other

/-- The value a parameter is bound to. -/
def Scope.value (scope : Scope) (name : String) : Eval Value :=
  match scope.get? name with
  | some value => return value
  | none => fail (.unboundParameter name)

mutual

/-- Evaluates an expression in a scope, given the steps that lead one level
deeper. -/
def Node.evaluateIn (deeper : Deeper) (setting : Setting) (scope : Scope) : Node → Argument
  | .parameter name, _ => scope.value name
  | .binary operator left right, record => do
    combine operator (← Node.evaluateIn deeper setting scope left record)
      (Node.evaluateIn deeper setting scope right record)
  | .unary operator operand, record => do
    combineOne operator (← Node.evaluateIn deeper setting scope operand record)
  | .array elements, record => do
    return .array (← elementsIn deeper setting scope elements record)
  | .call function arguments, record => do
    let values ← valuesIn deeper setting scope arguments record
    function.apply record (values.map fun value _ => return value)
  | node, record => insideLambda node (Node.evaluateWith deeper setting node record)

/-- Evaluates the elements of an array in a scope; a lambda becomes a closure
right away. -/
def elementsIn (deeper : Deeper) (setting : Setting) (scope : Scope) :
    List Node → Option RecordRef → Eval (List Value)
  | [], _ => return []
  | .lambda parameter body :: rest, record => do
    let closure ← close parameter body record
    return closure :: (← elementsIn deeper setting scope rest record)
  | element :: rest, record => do
    let value ← Node.evaluateIn deeper setting scope element record
    return value :: (← elementsIn deeper setting scope rest record)

/-- Evaluates the arguments of a function in a scope. -/
def valuesIn (deeper : Deeper) (setting : Setting) (scope : Scope) :
    List Node → Option RecordRef → Eval (List Value)
  | [], _ => return []
  | argument :: rest, record => do
    let value ← Node.evaluateIn deeper setting scope argument record
    return value :: (← valuesIn deeper setting scope rest record)

end

/-- A floating-point result of a closure as an integer when it is whole. -/
def normalized : Value → Value
  | .float number => .ofNumber number
  | value => value

/-- Calls a closure, given the steps that lead one level deeper. -/
def Closure.callWith (deeper : Deeper) (setting : Setting) (closure : Closure)
    (arguments : List Value) : Eval Value :=
  match arguments with
  | [value] => do
    return normalized (← closure.body.evaluateIn deeper setting
      [(closure.parameter, value)] closure.record)
  | _ => fail (.wrongArgumentCount [closure.parameter] arguments.length)

/-- The steps that lead one level deeper when `depth` levels are left. -/
def deeperAt (setting : Setting) : (depth : Nat) → Deeper
  | 0 => ⟨fun _ _ => fail .tooDeep, fun _ _ => fail .tooDeep⟩
  | depth + 1 =>
    ⟨Node.evaluateWith (deeperAt setting depth) setting,
      Closure.callWith (deeperAt setting depth) setting⟩

/-- How many levels tables and closures may be nested. -/
def nestingLimit : Nat := 1000

/-- Evaluates an expression against a record. -/
def Node.evaluate (setting : Setting) (node : Node) : Argument :=
  node.evaluateWith (deeperAt setting nestingLimit) setting

/-- Calls a closure. -/
def Closure.call (setting : Setting) : Caller :=
  (deeperAt setting nestingLimit).call

/-- Evaluates a condition against a record. -/
def Node.holds (setting : Setting) (node : Node) (purpose : String) (record : RecordRef) :
    Eval Bool := do
  let verdict ← node.evaluate setting (some record)
  labelled (verdict.expectBoolean · purpose)

end Patchwork
