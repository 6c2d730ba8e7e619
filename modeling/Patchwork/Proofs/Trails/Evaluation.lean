import Patchwork.Proofs.Evaluation.Substitution
import Patchwork.Proofs.Trails.Procedures

/-!
# Expressions keep to the rules

An expression that obeys the rules keeps to them and gives a value that obeys them, if the
definitions do.  What stands on the left of an arrow gives a group whenever it gives
anything, so an arrow never fails for want of one.
-/

namespace Patchwork

open Eval

/-! ## Expressions that produce groups -/

/-- A value that is a group. -/
def Value.IsGroup (value : Value) : Prop :=
  ∃ group, value = .group group

theorem Function.isGroup_cloneGroup {group : Group} {count : Int} {before after : World}
    {value : Value} (hyields : (cloneGroup group count).Yields before value after) :
    value.IsGroup := by
  unfold cloneGroup at hyields
  split at hyields
  · obtain ⟨mod, _, -, hrest⟩ := yields_bind.mp hyields
    obtain ⟨clones, _, -, hlast⟩ := yields_bind.mp hrest
    exact ⟨_, (yields_pure.mp hlast).1.symm⟩
  · exact absurd hyields not_yields_fail

theorem Function.isGroup_apply {function : Function} (hreturns : function.returnsGroup = true)
    {record : Option RecordRef} {arguments : List Argument} {before after : World}
    {value : Value} (hyields : (function.apply record arguments).Yields before value after) :
    value.IsGroup := by
  cases function with
  | clone =>
    obtain ⟨result, between, hresult, hmark⟩ := yields_bind.mp hyields
    obtain ⟨first, _, -, hrest⟩ := yields_bind.mp hresult
    obtain ⟨group, _, -, hrest⟩ := yields_bind.mp hrest
    obtain ⟨second, _, -, hrest⟩ := yields_bind.mp hrest
    obtain ⟨count, _, -, hrest⟩ := yields_bind.mp hrest
    obtain ⟨clones, rfl⟩ := isGroup_cloneGroup hrest
    exact ⟨clones, (yields_pure.mp hmark).1.symm⟩
  | _ => cases hreturns

theorem isGroup_pipeInto {deeper : Deeper} {left value : Value} {procedure : Procedure}
    {arguments : List Argument} {pairwise : Bool} {before after : World}
    (hyields : (pipeInto deeper left procedure arguments pairwise).Yields before value after) :
    value.IsGroup := by
  obtain ⟨group, _, hgroup, hrest⟩ := yields_bind.mp hyields
  obtain ⟨_, _, -, hlast⟩ := yields_bind.mp hrest
  obtain ⟨rfl, -⟩ := yields_pure.mp hlast
  obtain ⟨hexpect, -⟩ := yields_labelled.mp hgroup
  cases left <;> cases hexpect
  exact ⟨group, rfl⟩

section

variable {deeper : Deeper} {setting : Setting} {node : Node} {record : Option RecordRef}
  {before after : World} {value : Value}

/-- What produces a group gives a group, whenever it gives anything. -/
theorem Node.isGroup_evaluateWith (hproduces : node.producesGroup = true)
    (hyields : (node.evaluateWith deeper setting record).Yields before value after) :
    value.IsGroup := by
  cases node with
  | call function arguments => exact Function.isGroup_apply hproduces hyields
  | group group => exact ⟨group, (yields_pure.mp hyields).1.symm⟩
  | pipe left procedure arguments pairwise =>
    obtain ⟨_, _, -, hpipe⟩ := yields_bind.mp hyields
    exact isGroup_pipeInto hpipe
  | _ => cases hproduces

/-- What produces a group gives one in the body of a lambda, too. -/
theorem Node.isGroup_evaluateIn {scope : Scope} (hproduces : node.producesGroup = true)
    (hyields : (node.evaluateIn deeper setting scope record).Yields before value after) :
    value.IsGroup := by
  cases node with
  | call function arguments =>
    obtain ⟨values, between, -, happly⟩ := yields_bind.mp hyields
    exact Function.isGroup_apply hproduces happly
  | group group =>
    exact isGroup_evaluateWith hproduces ((sameYields_insideLambda _ _ _ _ _).mp hyields)
  | pipe left procedure arguments pairwise =>
    exact isGroup_evaluateWith hproduces ((sameYields_insideLambda _ _ _ _ _).mp hyields)
  | _ => cases hproduces

end

/-! ## Steps of evaluation -/

section Steps

variable {repository : Repository} {rules : Rules} {left right : Eval Value}

/-- Data that a computation without effects gives, marked. -/
theorem keeps_marked {compute : Labels → Except Fault Value}
    (hmeets : ∀ labels, Meets (compute labels) Value.Data) :
    (do mark (← labelled compute) : Eval Value).Keeps repository rules (Value.Obeys rules) :=
  (keeps_labelled hmeets).bind fun _ hdata => keeps_mark hdata.obeys

theorem keeps_logical (operator : BinaryOperator) (value : Value)
    (hright : right.Keeps repository rules (Value.Obeys rules)) :
    (logical operator value right).Keeps repository rules (Value.Obeys rules) := by
  refine value.keeps_toBoolean.andThen fun flag => ?_
  cases operator.decided? flag with
  | some decided => exact keeps_data trivial
  | none =>
    exact hright.andThen fun other => other.keeps_toBoolean.andThen fun _ => keeps_data trivial

theorem keeps_combine (operator : BinaryOperator) (value : Value)
    (hright : right.Keeps repository rules (Value.Obeys rules)) :
    (combine operator value right).Keeps repository rules (Value.Obeys rules) := by
  unfold combine
  split
  · exact keeps_logical operator value hright
  · exact hright.andThen fun other => keeps_marked fun labels =>
      BinaryOperator.meets_apply labels operator value other

theorem keeps_combineOne (operator : UnaryOperator) (operand : Value) :
    (combineOne operator operand).Keeps repository rules (Value.Obeys rules) :=
  keeps_marked fun labels => UnaryOperator.meets_apply labels operator operand

theorem keeps_close (parameter : String) {body : Node} (hbody : body.Obeys rules)
    (record : Option RecordRef) :
    (close parameter body record).Keeps repository rules (Value.Obeys rules) :=
  keeps_nextMark.andThen fun _ => keeps_pure hbody

theorem keeps_elementAt {items : List Value} (hitems : ∀ item ∈ items, item.Obeys rules)
    (position : Int) :
    (elementAt items position).Keeps repository rules (Value.Obeys rules) := by
  unfold elementAt
  split
  · rename_i element helement
    have hmem : element ∈ items := by
      split at helement
      · cases helement
      · exact List.mem_of_getElem? helement
    exact keeps_pure (hitems element hmem)
  · exact keeps_fail trivial

end Steps

/-- The steps that lead one level deeper keep to the rules. -/
structure Eval.KeepingDeeper (repository : Repository) (rules : Rules) (deeper : Deeper) :
    Prop where
  entry : ∀ node : Node, node.Obeys rules → KeptArgument repository rules (deeper.entry node)
  call : KeepingCaller repository rules deeper.call

variable {setting : Setting} {rules : Rules} {deeper : Deeper}

theorem keeps_pipeInto (hdeeper : KeepingDeeper setting.repository rules deeper) {group : Group}
    (hgroup : rules.Admits group) (procedure : Procedure) (hpermits : rules.permits procedure)
    {arguments : List Argument} (haccepts : procedure.arity.Accepts arguments.length)
    (harguments : ∀ argument ∈ arguments, KeptArgument setting.repository rules argument)
    (pairwise : Bool) :
    (pipeInto deeper (.group group) procedure arguments pairwise).Keeps setting.repository rules
      (Value.Obeys rules) := by
  have hleft : (labelled ((Value.group group).expectGroup · "left side of ->")).Keeps
      setting.repository rules rules.Admits := keeps_labelled fun _ => meets_ok hgroup
  refine hleft.bind fun targets htargets => ?_
  exact (Procedure.keeps_apply hdeeper.call harguments procedure hpermits haccepts htargets
    pairwise).andThen fun _ => keeps_pure hgroup

theorem keeps_valueAt (henvironment : setting.environment.Obeys rules)
    (hdeeper : KeepingDeeper setting.repository rules deeper) {target : Value}
    (htarget : target.Obeys rules) (position : Value) :
    KeptArgument setting.repository rules (valueAt deeper setting target position) := by
  intro record
  unfold valueAt
  cases target with
  | array items =>
    exact position.keeps_toInteger.andThen fun index =>
      keeps_elementAt (allValuesObey_iff.mp htarget) index
  | table table =>
    refine keeps_labels.andThen fun labels => ?_
    refine (keeps_settle (Environment.meets_tableEntry _ table _)).bind fun node hnode => ?_
    exact hdeeper.entry node (henvironment.of_tableEntry hnode) record
  | _ => exact keeps_labels.andThen fun _ => keeps_fail trivial

/-! ## Expressions without a scope -/

mutual

theorem Node.kept_evaluateWith (henvironment : setting.environment.Obeys rules)
    (hdeeper : KeepingDeeper setting.repository rules deeper) (node : Node)
    (hnode : node.Obeys rules) :
    KeptArgument setting.repository rules (node.evaluateWith deeper setting) := by
  intro record
  cases node with
  | literal value => exact keeps_pure hnode
  | parameter name => exact keeps_fail trivial
  | unary operator operand =>
    exact (Node.kept_evaluateWith henvironment hdeeper operand hnode record).andThen fun value =>
      keeps_combineOne operator value
  | binary operator left right =>
    refine (Node.kept_evaluateWith henvironment hdeeper left hnode.1 record).andThen
      fun value => ?_
    exact keeps_combine operator value
      (Node.kept_evaluateWith henvironment hdeeper right hnode.2 record)
  | call function arguments =>
    exact Function.keeps_apply (kept_argumentsWith henvironment hdeeper arguments hnode.2)
      function (length_argumentsWith deeper setting arguments ▸ hnode.1) record
  | test predicate arguments =>
    exact (Predicate.keeps_apply (kept_argumentsWith henvironment hdeeper arguments hnode.2)
      predicate (length_argumentsWith deeper setting arguments ▸ hnode.1) record).andThen fun _ =>
        keeps_data trivial
  | array elements =>
    exact (keeps_elementsWith henvironment hdeeper elements hnode record).bind
      fun items hitems => keeps_pure (allValuesObey_iff.mpr hitems)
  | tableName name => exact keeps_pure (henvironment.tableOrDefinition (fun _ => trivial) name)
  | index target position =>
    refine (Node.kept_evaluateWith henvironment hdeeper target hnode.1 record).bind
      fun value hvalue => ?_
    refine (Node.kept_evaluateWith henvironment hdeeper position hnode.2 record).andThen
      fun key => ?_
    exact keeps_valueAt henvironment hdeeper hvalue key record
  | group group => exact keeps_pure hnode
  | procedure procedure arguments pairwise => exact keeps_fail trivial
  | pipe left procedure arguments pairwise =>
    obtain ⟨hproduces, hleft, hpermits, haccepts, harguments⟩ := hnode
    refine ((Node.kept_evaluateWith henvironment hdeeper left hleft record).and
      fun _ _ _ => Node.isGroup_evaluateWith hproduces).bind fun value hvalue => ?_
    obtain ⟨hobeys, group, rfl⟩ := hvalue
    exact keeps_pipeInto hdeeper hobeys procedure hpermits
      (length_argumentsWith deeper setting arguments ▸ haccepts)
      (kept_argumentsWith henvironment hdeeper arguments harguments) pairwise
  | lambda parameter body =>
    have hbody : body.Obeys rules := hnode
    exact keeps_close parameter hbody record
  | command command arguments =>
    exact (Command.keeps_apply (kept_argumentsWith henvironment hdeeper arguments hnode.2)
      command (length_argumentsWith deeper setting arguments ▸ hnode.1) record).andThen fun _ =>
        keeps_data trivial

theorem kept_argumentsWith (henvironment : setting.environment.Obeys rules)
    (hdeeper : KeepingDeeper setting.repository rules deeper) (nodes : List Node)
    (hnodes : AllObey rules nodes) :
    ∀ argument ∈ argumentsWith deeper setting nodes,
      KeptArgument setting.repository rules argument := by
  intro argument hargument
  cases nodes with
  | nil => cases hargument
  | cons node rest =>
    rcases List.mem_cons.mp hargument with rfl | hrest
    · exact Node.kept_evaluateWith henvironment hdeeper node hnodes.1
    · exact kept_argumentsWith henvironment hdeeper rest hnodes.2 argument hrest

theorem keeps_elementsWith (henvironment : setting.environment.Obeys rules)
    (hdeeper : KeepingDeeper setting.repository rules deeper) (nodes : List Node)
    (hnodes : AllObey rules nodes) (record : Option RecordRef) :
    (elementsWith deeper setting nodes record).Keeps setting.repository rules fun values =>
      ∀ value ∈ values, value.Obeys rules := by
  cases nodes with
  | nil => exact keeps_pure fun _ hvalue => nomatch hvalue
  | cons node rest =>
    refine (Node.kept_evaluateWith henvironment hdeeper node hnodes.1 record).bind
      fun value hvalue => ?_
    refine (keeps_elementsWith henvironment hdeeper rest hnodes.2 record).bind
      fun values hvalues => ?_
    exact keeps_pure (List.forall_mem_cons.mpr ⟨hvalue, hvalues⟩)

end

/-! ## Expressions in a scope -/

/-- All values of a scope obey the rules. -/
def Scope.Obeys (scope : Scope) (rules : Rules) : Prop :=
  ∀ entry ∈ scope, entry.2.Obeys rules

variable {scope : Scope}

theorem Scope.Obeys.value (hscope : scope.Obeys rules) (name : String) :
    (scope.value name).Keeps setting.repository rules (Value.Obeys rules) := by
  unfold Scope.value
  cases hvalue : scope.get? name with
  | none => exact keeps_fail trivial
  | some value =>
    obtain ⟨here, hmem⟩ := Entries.mem_of_get? hvalue
    exact keeps_pure (hscope (here, value) hmem)

mutual

theorem Node.kept_evaluateIn (henvironment : setting.environment.Obeys rules)
    (hdeeper : KeepingDeeper setting.repository rules deeper) (hscope : scope.Obeys rules)
    (node : Node) (hnode : node.Obeys rules) :
    KeptArgument setting.repository rules (node.evaluateIn deeper setting scope) := by
  intro record
  have hwithout : (insideLambda node (node.evaluateWith deeper setting record)).Keeps
      setting.repository rules (Value.Obeys rules) :=
    keeps_insideLambda node (Node.kept_evaluateWith henvironment hdeeper node hnode record)
  cases node with
  | parameter name => exact hscope.value name
  | unary operator operand =>
    exact (Node.kept_evaluateIn henvironment hdeeper hscope operand hnode record).andThen
      fun value => keeps_combineOne operator value
  | binary operator left right =>
    refine (Node.kept_evaluateIn henvironment hdeeper hscope left hnode.1 record).andThen
      fun value => ?_
    exact keeps_combine operator value
      (Node.kept_evaluateIn henvironment hdeeper hscope right hnode.2 record)
  | call function arguments =>
    refine (keeps_valuesIn henvironment hdeeper hscope arguments hnode.2 record).bind
      fun values hvalues => ?_
    refine Function.keeps_apply ?_ function ?_ record
    · intro argument hargument record
      obtain ⟨value, hvalue, rfl⟩ := List.mem_map.mp hargument
      exact keeps_pure (hvalues.2 value hvalue)
    · rw [List.length_map, hvalues.1]
      exact hnode.1
  | array elements =>
    exact (keeps_elementsIn henvironment hdeeper hscope elements hnode record).bind
      fun items hitems => keeps_pure (allValuesObey_iff.mpr hitems)
  | _ => exact hwithout

theorem keeps_elementsIn (henvironment : setting.environment.Obeys rules)
    (hdeeper : KeepingDeeper setting.repository rules deeper) (hscope : scope.Obeys rules)
    (nodes : List Node) (hnodes : AllObey rules nodes) (record : Option RecordRef) :
    (elementsIn deeper setting scope nodes record).Keeps setting.repository rules fun values =>
      ∀ value ∈ values, value.Obeys rules := by
  cases nodes with
  | nil => exact keeps_pure fun _ hvalue => nomatch hvalue
  | cons node rest =>
    have hrest := keeps_elementsIn henvironment hdeeper hscope rest hnodes.2 record
    have hnode := Node.kept_evaluateIn henvironment hdeeper hscope node hnodes.1 record
    cases node with
    | lambda parameter body =>
      have hbody : body.Obeys rules := hnodes.1
      exact (keeps_close parameter hbody record).cons hrest
    | _ => exact hnode.cons hrest

theorem keeps_valuesIn (henvironment : setting.environment.Obeys rules)
    (hdeeper : KeepingDeeper setting.repository rules deeper) (hscope : scope.Obeys rules)
    (nodes : List Node) (hnodes : AllObey rules nodes) (record : Option RecordRef) :
    (valuesIn deeper setting scope nodes record).Keeps setting.repository rules fun values =>
      values.length = nodes.length ∧ ∀ value ∈ values, value.Obeys rules := by
  cases nodes with
  | nil => exact keeps_pure ⟨rfl, fun _ hvalue => nomatch hvalue⟩
  | cons node rest =>
    refine (Node.kept_evaluateIn henvironment hdeeper hscope node hnodes.1 record).bind
      fun value hvalue => ?_
    refine (keeps_valuesIn henvironment hdeeper hscope rest hnodes.2 record).bind
      fun values hvalues => ?_
    exact keeps_pure
      ⟨congrArg Nat.succ hvalues.1, List.forall_mem_cons.mpr ⟨hvalue, hvalues.2⟩⟩

end

/-! ## Every depth -/

theorem Value.Obeys.normalized {value : Value} (hvalue : value.Obeys rules) :
    (normalized value).Obeys rules := by
  cases value with
  | float number => exact (Value.data_ofNumber number).obeys
  | _ => exact hvalue

variable (henvironment : setting.environment.Obeys rules)

include henvironment

theorem keepingCaller_callWith (hdeeper : KeepingDeeper setting.repository rules deeper) :
    KeepingCaller setting.repository rules (Closure.callWith deeper setting) := by
  intro closure values hbody hvalues
  match values with
  | [] => exact keeps_fail trivial
  | _ :: _ :: _ => exact keeps_fail trivial
  | [value] =>
    have hscope : Scope.Obeys [(closure.parameter, value)] rules :=
      List.forall_mem_singleton.mpr (hvalues value (List.mem_singleton_self value))
    exact (Node.kept_evaluateIn henvironment hdeeper hscope closure.body hbody
      closure.record).bind fun result hresult => keeps_pure hresult.normalized

theorem keepingDeeper_deeperAt (depth : Nat) :
    KeepingDeeper setting.repository rules (deeperAt setting depth) := by
  induction depth with
  | zero => exact ⟨fun _ _ _ => keeps_fail trivial, fun _ _ _ _ => keeps_fail trivial⟩
  | succ depth ih =>
    exact ⟨fun node hnode => Node.kept_evaluateWith henvironment ih node hnode,
      keepingCaller_callWith henvironment ih⟩

/-- An expression that obeys the rules keeps to them and gives a value that obeys them. -/
theorem Node.kept_evaluate {node : Node} (hnode : node.Obeys rules) :
    KeptArgument setting.repository rules (node.evaluate setting) :=
  Node.kept_evaluateWith henvironment (keepingDeeper_deeperAt henvironment nestingLimit) node hnode

theorem Node.keeps_holds {node : Node} (hnode : node.Obeys rules) (purpose : String)
    (record : RecordRef) :
    (node.holds setting purpose record).Keeps setting.repository rules fun _ => True :=
  (Node.kept_evaluate henvironment hnode (some record)).andThen fun verdict =>
    verdict.keeps_expectBoolean purpose

end Patchwork
