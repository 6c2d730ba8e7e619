import Patchwork.Proofs.Evaluation.Giving

/-!
# Evaluating one expression

Evaluating an expression evaluates further expressions: its parts, the entries of tables and
the bodies of closures.  This file says what one expression does with the results of the
others, and that evaluation is nothing but that, over and over.
-/

namespace Patchwork

open Eval

/-! ## Parts -/

/-- The expressions an expression evaluates, or hands on to be evaluated. -/
def Node.parts : Node → List Node
  | .unary _ operand => [operand]
  | .binary _ left right => [left, right]
  | .call _ arguments => arguments
  | .test _ arguments => arguments
  | .array elements => elements
  | .index target position => [target, position]
  | .procedure _ arguments _ => arguments
  | .pipe left _ arguments _ => left :: arguments
  | .command _ arguments => arguments
  | _ => []

mutual

/-- An expression and all expressions inside it, the bodies of its lambdas included. -/
def Node.expressions : Node → List Node
  | .unary operator operand => .unary operator operand :: operand.expressions
  | .binary operator left right =>
    .binary operator left right :: (left.expressions ++ right.expressions)
  | .call function arguments => .call function arguments :: expressionsIn arguments
  | .test predicate arguments => .test predicate arguments :: expressionsIn arguments
  | .array elements => .array elements :: expressionsIn elements
  | .index target position => .index target position :: (target.expressions ++ position.expressions)
  | .procedure procedure arguments pairwise =>
    .procedure procedure arguments pairwise :: expressionsIn arguments
  | .pipe left procedure arguments pairwise =>
    .pipe left procedure arguments pairwise :: (left.expressions ++ expressionsIn arguments)
  | .lambda parameter body => .lambda parameter body :: body.expressions
  | .command command arguments => .command command arguments :: expressionsIn arguments
  | node => [node]

/-- The expressions of a list and all expressions inside them. -/
def expressionsIn : List Node → List Node
  | [] => []
  | node :: rest => node.expressions ++ expressionsIn rest

end

/-- How many expressions there are in an expression, itself included. -/
def Node.size (node : Node) : Nat :=
  node.expressions.length

theorem Node.mem_expressions_self (node : Node) : node ∈ node.expressions := by
  cases node <;> exact List.mem_cons_self

theorem expressions_sublist_expressionsIn {node : Node} {nodes : List Node} (hnode : node ∈ nodes) :
    node.expressions.Sublist (expressionsIn nodes) := by
  induction nodes with
  | nil => cases hnode
  | cons first rest ih =>
    rw [expressionsIn]
    obtain rfl | hrest := List.mem_cons.mp hnode
    · exact List.sublist_append_left _ _
    · exact (ih hrest).trans (List.sublist_append_right _ _)

/-- What is inside a part comes after the expression itself. -/
theorem Node.expressions_sublist_tail {part node : Node} (hpart : part ∈ node.parts) :
    part.expressions.Sublist node.expressions.tail := by
  cases node with
  | unary operator operand =>
    cases List.mem_singleton.mp hpart
    exact List.Sublist.refl _
  | binary operator left right | index left right =>
    obtain rfl | hright := List.mem_cons.mp hpart
    · exact List.sublist_append_left _ _
    · cases List.mem_singleton.mp hright
      exact List.sublist_append_right _ _
  | call | test | array | procedure | command => exact expressions_sublist_expressionsIn hpart
  | pipe left procedure arguments pairwise =>
    obtain rfl | hargument := List.mem_cons.mp hpart
    · exact List.sublist_append_left _ _
    · exact (expressions_sublist_expressionsIn hargument).trans (List.sublist_append_right _ _)
  | literal | parameter | tableName | group | lambda => cases hpart

theorem Node.length_tail_expressions (node : Node) : node.expressions.tail.length < node.size := by
  unfold Node.size
  cases node <;> exact Nat.lt_succ_self _

theorem Node.size_lt_of_mem_parts {part node : Node} (hpart : part ∈ node.parts) :
    part.size < node.size :=
  Nat.lt_of_le_of_lt (Node.expressions_sublist_tail hpart).length_le node.length_tail_expressions

theorem Node.expressions_subset_of_mem_parts {part node : Node} (hpart : part ∈ node.parts) :
    part.expressions ⊆ node.expressions :=
  ((Node.expressions_sublist_tail hpart).trans (List.tail_sublist _)).subset

/-- What holds of an expression whenever it holds of its parts holds of all expressions. -/
theorem Node.induction_on_parts {holds : Node → Prop}
    (step : ∀ node, (∀ part ∈ node.parts, holds part) → holds node) (node : Node) : holds node :=
  step node fun part hpart =>
    have _ := Node.size_lt_of_mem_parts hpart
    Node.induction_on_parts step part
termination_by node.size

/-! ## What one expression does -/

/-- How further expressions are evaluated, without a scope and in one. -/
structure Visits where
  plain : Node → Argument
  inScope : Scope → Node → Argument

namespace Visits

/-- Table entries and the bodies of closures are evaluated like other expressions. -/
def deeper (visits : Visits) : Deeper where
  entry := visits.plain
  call closure arguments :=
    match arguments with
    | [value] => do
      return normalized
        (← visits.inScope [(closure.parameter, value)] closure.body closure.record)
    | _ => fail (.wrongArgumentCount [closure.parameter] arguments.length)

/-- How the elements of an array are evaluated in a scope: a lambda becomes a closure right
away. -/
def element (visits : Visits) (scope : Scope) : Node → Argument
  | .lambda parameter body => visits.plain (.lambda parameter body)
  | node => visits.inScope scope node

/-- How evaluation evaluates the parts of an expression. -/
def ofParts (deeper : Deeper) (setting : Setting) : Visits :=
  ⟨Node.evaluateWith deeper setting, Node.evaluateIn deeper setting⟩

end Visits

/-- Evaluates one expression, given how its parts are evaluated and the steps that lead one
level deeper. -/
def Node.visit (visits : Visits) (deeper : Deeper) (setting : Setting) : Node → Argument
  | .literal value, _ => return value
  | .parameter name, _ => fail (.parameterOutside name)
  | .unary operator operand, record => do combineOne operator (← visits.plain operand record)
  | .binary operator left right, record => do
    combine operator (← visits.plain left record) (visits.plain right record)
  | .call function arguments, record => function.apply record (arguments.map visits.plain)
  | .test predicate arguments, record => do
    return .boolean (← predicate.apply record (arguments.map visits.plain))
  | .array elements, record => do
    return .array (← elements.mapM fun element => visits.plain element record)
  | .tableName name, _ => return setting.environment.tableOrDefinition name
  | .index target position, record => do
    let target ← visits.plain target record
    let position ← visits.plain position record
    valueAt deeper setting target position record
  | .group members, _ => return .group members
  | .procedure applied _ _, _ => fail (.noTarget applied.name)
  | .pipe left applied arguments pairwise, record => do
    pipeInto deeper (← visits.plain left record) applied (arguments.map visits.plain) pairwise
  | .lambda name body, record => close name body record
  | .command given arguments, record => do
    given.apply setting.repository record (arguments.map visits.plain)
    return .boolean true

/-- Evaluates one expression in a scope, given how its parts are evaluated and the steps that
lead one level deeper. -/
def Node.visitIn (visits : Visits) (deeper : Deeper) (setting : Setting) (scope : Scope) :
    Node → Argument
  | .parameter name, _ => scope.value name
  | .binary operator left right, record => do
    combine operator (← visits.inScope scope left record) (visits.inScope scope right record)
  | .unary operator operand, record => do
    combineOne operator (← visits.inScope scope operand record)
  | .array elements, record => do
    return .array (← elements.mapM fun element => visits.element scope element record)
  | .call function arguments, record => do
    let values ← arguments.mapM fun argument => visits.inScope scope argument record
    function.apply record (constants values)
  | node, record => insideLambda node (node.visit visits deeper setting record)

/-! ## Evaluation visits -/

section

variable (deeper : Deeper) (setting : Setting) (scope : Scope)

theorem argumentsWith_eq_map (nodes : List Node) :
    argumentsWith deeper setting nodes = nodes.map (Node.evaluateWith deeper setting) := by
  induction nodes with
  | nil => rfl
  | cons node rest ih => rw [argumentsWith, ih, List.map_cons]

theorem elementsWith_eq_mapM (nodes : List Node) (record : Option RecordRef) :
    elementsWith deeper setting nodes record =
      nodes.mapM fun node => node.evaluateWith deeper setting record := by
  induction nodes with
  | nil => rfl
  | cons node rest ih => rw [elementsWith, ih, List.mapM_cons]

theorem valuesIn_eq_mapM (nodes : List Node) (record : Option RecordRef) :
    valuesIn deeper setting scope nodes record =
      nodes.mapM fun node => node.evaluateIn deeper setting scope record := by
  induction nodes with
  | nil => rfl
  | cons node rest ih => rw [valuesIn, ih, List.mapM_cons]

theorem elementsIn_eq_mapM (nodes : List Node) (record : Option RecordRef) :
    elementsIn deeper setting scope nodes record =
      nodes.mapM fun node => (Visits.ofParts deeper setting).element scope node record := by
  induction nodes with
  | nil => rfl
  | cons node rest ih =>
    rw [List.mapM_cons, ← ih]
    cases node with
    | lambda parameter body => rfl
    | _ =>
      rw [elementsIn]
      · rfl
      · exact nofun

/-- Evaluation evaluates an expression by evaluating its parts. -/
theorem Node.evaluateWith_eq_visit (node : Node) :
    node.evaluateWith deeper setting =
      node.visit (Visits.ofParts deeper setting) deeper setting := by
  funext record
  cases node with
  | call | test | pipe | command =>
    simp only [Node.evaluateWith, Node.visit, argumentsWith_eq_map]
    rfl
  | array elements =>
    rw [Node.evaluateWith, elementsWith_eq_mapM]
    rfl
  | _ => rfl

/-- Evaluation evaluates an expression in a scope by evaluating its parts in the scope. -/
theorem Node.evaluateIn_eq_visitIn (node : Node) :
    node.evaluateIn deeper setting scope =
      node.visitIn (Visits.ofParts deeper setting) deeper setting scope := by
  funext record
  cases node with
  | parameter | unary | binary => rfl
  | array elements =>
    rw [Node.evaluateIn, elementsIn_eq_mapM]
    rfl
  | call function arguments =>
    rw [Node.evaluateIn, valuesIn_eq_mapM]
    rfl
  | _ =>
    rw [Node.visitIn, ← Node.evaluateWith_eq_visit, Node.evaluateIn]
    all_goals
      intros
      contradiction

theorem deeperAt_succ (depth : Nat) :
    deeperAt setting (depth + 1) = (Visits.ofParts (deeperAt setting depth) setting).deeper :=
  rfl

end

/-! ## Visits that coincide -/

variable {bodies : Node → Prop} {tables : String → Prop}
variable {deeper deeper' : Deeper} {setting setting' : Setting} {scope : Scope}
variable {visits visits' : Visits} {record : Option RecordRef}

/-- Below an expression that leads to certain bodies and tables only, nothing depends on the
side it is evaluated on. -/
structure Deeper.SameBelow (bodies : Node → Prop) (tables : String → Prop) (deeper deeper' : Deeper)
    (setting setting' : Setting) : Prop where
  repository : setting'.repository = setting.repository
  tables_eq : setting'.environment.tables = setting.environment.tables
  entry : ∀ table key node record, tables table →
    setting.environment.tableEntry table key = .ok node →
    Coincide (Value.LeadsTo bodies tables) (deeper.entry node record) (deeper'.entry node record)
  call : Caller.Agree bodies deeper.call deeper'.call

/-- What an expression leads to by itself: a literal, a name or a lambda. -/
structure Node.LeadsTo (bodies : Node → Prop) (tables : String → Prop) (environment : Environment)
    (node : Node) : Prop where
  literal : ∀ value, node = .literal value → value.LeadsTo bodies tables
  named : ∀ name, node = .tableName name →
    (environment.tableOrDefinition name).LeadsTo bodies tables
  lambda : ∀ parameter body, node = .lambda parameter body → bodies body

theorem gives_combine (operator : BinaryOperator) (left : Value) (right : Eval Value) :
    GivesLeading bodies tables (combine operator left right) := by
  unfold combine
  split
  · refine Gives.of_any_bind fun flag => ?_
    split
    · exact Gives.of_pure trivial
    · exact Gives.of_any_bind fun _ => Gives.of_any_bind fun _ => Gives.of_pure trivial
  · exact Gives.of_any_bind fun value => gives_apply_marked fun labels =>
      BinaryOperator.meets_apply labels operator left value

theorem gives_combineOne (operator : UnaryOperator) (operand : Value) :
    GivesLeading bodies tables (combineOne operator operand) :=
  gives_apply_marked fun labels => UnaryOperator.meets_apply labels operator operand

theorem gives_elementAt {items : List Value} (hitems : AllLeadTo bodies tables items)
    (position : Int) : GivesLeading bodies tables (elementAt items position) := by
  unfold elementAt
  split
  · rename_i element helement
    refine Gives.of_pure (allLeadTo_iff.mp hitems element ?_)
    split at helement
    · cases helement
    · exact List.mem_of_getElem? helement
  · exact Gives.of_fail _

/-- A scope whose values lead to certain bodies and tables only. -/
def Scope.LeadsTo (bodies : Node → Prop) (tables : String → Prop) (scope : Scope) : Prop :=
  ∀ name value, scope.get? name = some value → value.LeadsTo bodies tables

theorem Scope.LeadsTo.gives_value (hscope : scope.LeadsTo bodies tables) (name : String) :
    GivesLeading bodies tables (scope.value name) := by
  unfold Scope.value
  split
  · rename_i value hvalue
    exact Gives.of_pure (hscope name value hvalue)
  · exact Gives.of_fail _

section

variable (hdeeper : Deeper.SameBelow bodies tables deeper deeper' setting setting')

include hdeeper

theorem Deeper.SameBelow.tableEntry (table key : String) :
    setting'.environment.tableEntry table key = setting.environment.tableEntry table key := by
  unfold Environment.tableEntry
  rw [hdeeper.tables_eq]

theorem valueAt_coincide {target : Value} (htarget : target.LeadsTo bodies tables)
    (position : Value) :
    Coincide (Value.LeadsTo bodies tables) (valueAt deeper setting target position record)
      (valueAt deeper' setting' target position record) := by
  cases target with
  | array items =>
    exact Coincide.of_gives (Gives.of_any_bind fun index => gives_elementAt htarget index)
  | table table =>
    refine Coincide.of_same_bind fun labels => ?_
    dsimp only
    rw [hdeeper.tableEntry]
    have hentry : Gives (fun node =>
        setting.environment.tableEntry table (position.display labels) = .ok node)
        (settle (setting.environment.tableEntry table (position.display labels))) :=
      Gives.of_settle fun node hnode => hnode
    exact (Coincide.of_gives hentry).of_bind fun node hnode =>
      hdeeper.entry table _ node record htarget hnode
  | _ => exact Coincide.of_gives (Gives.of_any_bind fun labels => Gives.of_fail _)

theorem pipeInto_coincide {left : Value} (hleft : left.LeadsTo bodies tables)
    (procedure : Procedure) {arguments : List Argument}
    (harguments : ∀ argument ∈ arguments, ∀ record, GivesLeading bodies tables (argument record))
    (pairwise : Bool) :
    Coincide (Value.LeadsTo bodies tables) (pipeInto deeper left procedure arguments pairwise)
      (pipeInto deeper' left procedure arguments pairwise) where
  same := by
    unfold pipeInto
    simp only [Procedure.apply_eq hdeeper.call harguments]
  gives := Gives.of_any_bind fun group => Gives.of_any_bind fun _ => Gives.of_pure hleft

/-- Evaluating one expression comes to the same on both sides if evaluating its parts does. -/
theorem Node.visit_coincide {node : Node} (hnode : node.LeadsTo bodies tables setting.environment)
    (hnamed : ∀ name, node = .tableName name →
      setting'.environment.tableOrDefinition name = setting.environment.tableOrDefinition name)
    (hparts : ∀ part ∈ node.parts, ∀ record, Coincide (Value.LeadsTo bodies tables)
      (visits.plain part record) (visits'.plain part record)) :
    Coincide (Value.LeadsTo bodies tables) (node.visit visits deeper setting record)
      (node.visit visits' deeper' setting' record) := by
  have hmap : ∀ nodes : List Node, (∀ part ∈ nodes, part ∈ node.parts) →
      nodes.map visits'.plain = nodes.map visits.plain := fun nodes hnodes =>
    List.map_congr_left fun part hpart => funext fun record =>
      (hparts part (hnodes part hpart) record).same
  have harguments : ∀ nodes : List Node, (∀ part ∈ nodes, part ∈ node.parts) →
      ∀ argument ∈ nodes.map visits.plain, ∀ record,
        GivesLeading bodies tables (argument record) := by
    intro nodes hnodes argument hargument record
    obtain ⟨part, hpart, rfl⟩ := List.mem_map.mp hargument
    exact (hparts part (hnodes part hpart) record).gives
  cases node with
  | literal value => exact Coincide.of_gives (Gives.of_pure (hnode.literal value rfl))
  | parameter name => exact Coincide.of_gives (Gives.of_fail _)
  | unary operator operand =>
    refine (hparts operand List.mem_cons_self record).of_bind fun value hvalue => ?_
    exact Coincide.of_gives (gives_combineOne operator value)
  | binary operator left right =>
    refine (hparts left List.mem_cons_self record).of_bind fun value hvalue => ?_
    rw [(hparts right (List.mem_cons_of_mem _ List.mem_cons_self) record).same]
    exact Coincide.of_gives (gives_combine operator value _)
  | call function arguments =>
    simp only [Node.visit, hmap arguments fun _ => id]
    exact Coincide.of_gives (Function.gives_apply function)
  | test predicate arguments =>
    simp only [Node.visit, hmap arguments fun _ => id]
    exact Coincide.of_gives (Gives.of_any_bind fun _ => Gives.of_pure trivial)
  | array elements =>
    refine (Coincide.of_mapM fun part hpart => hparts part hpart record).of_bind
      fun values hvalues => ?_
    exact Coincide.of_gives (Gives.of_pure (allLeadTo_iff.mpr hvalues))
  | tableName name =>
    simp only [Node.visit, hnamed name rfl]
    exact Coincide.of_gives (Gives.of_pure (hnode.named name rfl))
  | index target position =>
    refine (hparts target List.mem_cons_self record).of_bind fun value hvalue => ?_
    refine (hparts position (List.mem_cons_of_mem _ List.mem_cons_self) record).of_bind
      fun index hindex => ?_
    exact valueAt_coincide hdeeper hvalue index
  | group group => exact Coincide.of_gives (Gives.of_pure trivial)
  | procedure procedure arguments pairwise => exact Coincide.of_gives (Gives.of_fail _)
  | pipe left procedure arguments pairwise =>
    refine (hparts left List.mem_cons_self record).of_bind fun value hvalue => ?_
    have hrest : ∀ part ∈ arguments, part ∈ (Node.pipe left procedure arguments pairwise).parts :=
      fun part hpart => List.mem_cons_of_mem _ hpart
    rw [hmap arguments hrest]
    exact pipeInto_coincide hdeeper hvalue procedure (harguments arguments hrest) pairwise
  | lambda parameter body =>
    exact Coincide.of_gives (Gives.of_any_bind fun _ =>
      Gives.of_pure (hnode.lambda parameter body rfl))
  | command command arguments =>
    simp only [Node.visit, hmap arguments fun _ => id, hdeeper.repository]
    exact Coincide.of_gives (Gives.of_any_bind fun _ => Gives.of_pure trivial)

/-- Evaluating one expression in a scope comes to the same on both sides if evaluating its
parts does. -/
theorem Node.visitIn_coincide {node : Node} (hscope : scope.LeadsTo bodies tables)
    (hnode : node.LeadsTo bodies tables setting.environment)
    (hnamed : ∀ name, node = .tableName name →
      setting'.environment.tableOrDefinition name = setting.environment.tableOrDefinition name)
    (hparts : ∀ part ∈ node.parts, ∀ record, Coincide (Value.LeadsTo bodies tables)
      (visits.plain part record) (visits'.plain part record))
    (hinScope : ∀ part ∈ node.parts, ∀ record, Coincide (Value.LeadsTo bodies tables)
      (visits.inScope scope part record) (visits'.inScope scope part record)) :
    Coincide (Value.LeadsTo bodies tables) (node.visitIn visits deeper setting scope record)
      (node.visitIn visits' deeper' setting' scope record) := by
  cases node with
  | parameter name => exact Coincide.of_gives (hscope.gives_value name)
  | unary operator operand =>
    refine (hinScope operand List.mem_cons_self record).of_bind fun value hvalue => ?_
    exact Coincide.of_gives (gives_combineOne operator value)
  | binary operator left right =>
    refine (hinScope left List.mem_cons_self record).of_bind fun value hvalue => ?_
    rw [(hinScope right (List.mem_cons_of_mem _ List.mem_cons_self) record).same]
    exact Coincide.of_gives (gives_combine operator value _)
  | array elements =>
    have helements : ∀ part ∈ elements, Coincide (Value.LeadsTo bodies tables)
        (visits.element scope part record) (visits'.element scope part record) := by
      intro part hpart
      cases part with
      | lambda parameter body => exact hparts _ hpart record
      | _ => exact hinScope _ hpart record
    refine (Coincide.of_mapM helements).of_bind fun values hvalues => ?_
    exact Coincide.of_gives (Gives.of_pure (allLeadTo_iff.mpr hvalues))
  | call function arguments =>
    refine (Coincide.of_mapM fun part hpart => hinScope part hpart record).of_bind
      fun values hvalues => ?_
    exact Coincide.of_gives (Function.gives_apply function)
  | _ => exact (Node.visit_coincide hdeeper hnode hnamed hparts).of_insideLambda _

end

end Patchwork
