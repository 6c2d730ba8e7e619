import Patchwork.Proofs.Environments
import Patchwork.Proofs.Horizon.Calls

/-!
# Expressions stay within a horizon

An expression within a horizon gives a value within it at a current record within it, if
everything that is defined is.  Evaluating any other expression keeps the records within it
just as well.
-/

namespace Patchwork

open Eval

variable {horizon : Horizon} {deeper : Deeper} {setting : Setting} {left right : Eval Value}
  {gives : Value → Prop}

/-! ## Operators, closures and indexes -/

theorem stays_logical (operator : BinaryOperator) (value : Value)
    (hright : right.Stays horizon gives) :
    (logical operator value right).Stays horizon (Value.Within horizon) := by
  refine (stays_plain _).andThen fun flag => ?_
  cases operator.decided? flag with
  | some decided => exact stays_pure rfl
  | none => exact hright.andThen fun other => (stays_plain _).andThen fun _ => stays_pure rfl

theorem stays_combine (operator : BinaryOperator) (value : Value)
    (hright : right.Stays horizon gives) :
    (combine operator value right).Stays horizon fun result =>
      value.Within horizon → (∀ other, gives other → other.Within horizon) →
        result.Within horizon := by
  unfold combine
  split
  · exact (stays_logical operator value hright).mono fun _ hresult _ _ => hresult
  · refine hright.bind fun other => ?_
    refine (stays_labelled fun labels hlabels result hresult hvalue hother =>
      BinaryOperator.within_apply hlabels hvalue hother hresult).bind fun result => ?_
    exact (stays_mark result).mono fun _ hmarked hresult hgiven hvalue hgives =>
      hmarked (hresult hvalue (hgives other hgiven))

theorem stays_combineOne (operator : UnaryOperator) (operand : Value) :
    (combineOne operator operand).Stays horizon fun result =>
      operand.Within horizon → result.Within horizon := by
  refine (stays_labelled fun labels hlabels result hresult hoperand =>
    UnaryOperator.within_apply hlabels hoperand hresult).bind fun result => ?_
  exact (stays_mark result).mono fun _ hmarked hresult hoperand => hmarked (hresult hoperand)

theorem stays_close (parameter : String) (body : Node) (record : Option RecordRef) :
    (close parameter body record).Stays horizon fun value =>
      body.Within horizon → Currently horizon record → value.Within horizon :=
  stays_nextMark.bind fun _ => stays_pure Value.within_closure

theorem stays_elementAt (items : List Value) (position : Int) :
    (elementAt items position).Stays horizon fun value =>
      (∀ item ∈ items, item.Within horizon) → value.Within horizon := by
  unfold elementAt
  split
  · rename_i element helement
    have hmem : element ∈ items := by
      split at helement
      · cases helement
      · exact List.mem_of_getElem? helement
    exact stays_pure fun hitems => hitems element hmem
  · exact stays_fail _

/-- The steps that lead one level deeper stay within a horizon. -/
structure StayingDeeper (horizon : Horizon) (deeper : Deeper) : Prop where
  entry : ∀ node, StayingArgument horizon (node.Within horizon) (deeper.entry node)
  call : StayingCaller horizon deeper.call

/-- Everything that is defined is within a horizon. -/
abbrev Environment.Within (horizon : Horizon) (environment : Environment) : Prop :=
  environment.All (Value.Within horizon) (Node.Within horizon)

theorem stays_pipeInto (hdeeper : StayingDeeper horizon deeper) {holds : Prop} (value : Value)
    (procedure : Procedure) {arguments : List Argument}
    (harguments : ∀ argument ∈ arguments, StayingArgument horizon holds argument)
    (pairwise : Bool) :
    (pipeInto deeper value procedure arguments pairwise).Stays horizon fun result =>
      value.Within horizon → result.Within horizon :=
  (stays_plain _).andThen fun _ =>
    (Procedure.stays_apply hdeeper.call harguments procedure _ pairwise).andThen fun _ =>
      stays_pure id

theorem stays_valueAt (hdeeper : StayingDeeper horizon deeper)
    (henvironment : setting.environment.Within horizon) (target position : Value)
    (record : Option RecordRef) :
    (valueAt deeper setting target position record).Stays horizon fun value =>
      target.Within horizon → Currently horizon record → value.Within horizon := by
  unfold valueAt
  cases target with
  | array items =>
    refine (stays_plain _).andThen fun index => ?_
    exact (stays_elementAt items index).mono fun _ hvalue hitems _ =>
      hvalue (Value.within_array.mp hitems)
  | table table =>
    refine stays_labels.andThen fun labels => ?_
    refine (stays_settle fun node hnode => henvironment.of_tableEntry hnode).bind fun node => ?_
    exact (hdeeper.entry node record).mono fun _ hvalue hnode _ hrecord => hvalue hnode hrecord
  | _ => exact stays_labels.andThen fun _ => stays_fail _

/-! ## Expressions without a scope -/

mutual

theorem Node.stays_evaluateWith (hdeeper : StayingDeeper horizon deeper)
    (henvironment : setting.environment.Within horizon) (node : Node) :
    StayingArgument horizon (node.Within horizon) (node.evaluateWith deeper setting) := by
  intro record
  cases node with
  | literal value =>
    exact stays_pure fun hvalue _ => Node.within_literal.mp hvalue
  | parameter name => exact stays_fail _
  | unary operator operand =>
    refine (Node.stays_evaluateWith hdeeper henvironment operand record).bind fun value => ?_
    exact (stays_combineOne operator value).mono fun _ hresult hvalue hnode hrecord =>
      hresult (hvalue (Node.within_unary.mp hnode) hrecord)
  | binary operator left right =>
    refine (Node.stays_evaluateWith hdeeper henvironment left record).bind fun value => ?_
    refine (stays_combine operator value
      (Node.stays_evaluateWith hdeeper henvironment right record)).mono
        fun _ hresult hvalue hnode hrecord => ?_
    obtain ⟨hleft, hright⟩ := Node.within_binary.mp hnode
    exact hresult (hvalue hleft hrecord) fun _ hother => hother hright hrecord
  | call function arguments =>
    exact (Function.stays_apply (staying_argumentsWith hdeeper henvironment arguments)
      function record).mono fun _ hvalue hnode => hvalue (Node.within_call.mp hnode)
  | test predicate arguments =>
    exact (Predicate.stays_apply (staying_argumentsWith hdeeper henvironment arguments)
      predicate record).andThen fun _ => stays_pure fun _ _ => rfl
  | array elements =>
    refine (stays_elementsWith hdeeper henvironment elements record).bind fun values => ?_
    exact stays_pure fun hvalues hnode hrecord =>
      Value.within_array.mpr (hvalues (Node.within_array.mp hnode) hrecord)
  | tableName name =>
    exact stays_pure fun _ _ => henvironment.tableOrDefinition (fun _ => rfl) name
  | index target position =>
    refine (Node.stays_evaluateWith hdeeper henvironment target record).bind fun first => ?_
    refine (Node.stays_evaluateWith hdeeper henvironment position record).andThen fun second => ?_
    refine (stays_valueAt hdeeper henvironment first second record).mono
      fun _ hvalue hfirst hnode hrecord => ?_
    exact hvalue (hfirst (Node.within_index.mp hnode).1 hrecord) hrecord
  | group group =>
    exact stays_pure fun hnode _ => Value.within_group.mpr (Node.within_group.mp hnode)
  | procedure procedure arguments pairwise => exact stays_fail _
  | pipe left procedure arguments pairwise =>
    refine (Node.stays_evaluateWith hdeeper henvironment left record).bind fun value => ?_
    exact (stays_pipeInto hdeeper value procedure
      (staying_argumentsWith hdeeper henvironment arguments) pairwise).mono
        fun _ hresult hvalue hnode hrecord => hresult (hvalue (Node.within_pipe.mp hnode).1 hrecord)
  | lambda parameter body =>
    exact (stays_close parameter body record).mono fun _ hvalue hnode =>
      hvalue (Node.within_lambda.mp hnode)
  | command command arguments =>
    exact (Command.stays_apply (staying_argumentsWith hdeeper henvironment arguments)
      setting.repository command record).andThen fun _ => stays_pure fun _ _ => rfl

theorem staying_argumentsWith (hdeeper : StayingDeeper horizon deeper)
    (henvironment : setting.environment.Within horizon) (nodes : List Node) :
    ∀ argument ∈ argumentsWith deeper setting nodes,
      StayingArgument horizon (∀ node ∈ nodes, node.Within horizon) argument := by
  cases nodes with
  | nil => exact fun _ hargument => nomatch hargument
  | cons node rest =>
    rw [argumentsWith]
    refine List.forall_mem_cons.mpr ⟨fun record => ?_, fun argument hargument record => ?_⟩
    · exact (Node.stays_evaluateWith hdeeper henvironment node record).mono fun _ hvalue hnodes =>
        hvalue (hnodes node List.mem_cons_self)
    · exact (staying_argumentsWith hdeeper henvironment rest argument hargument record).mono
        fun _ hvalue hnodes => hvalue fun other hother =>
          hnodes other (List.mem_cons_of_mem _ hother)

theorem stays_elementsWith (hdeeper : StayingDeeper horizon deeper)
    (henvironment : setting.environment.Within horizon) (nodes : List Node)
    (record : Option RecordRef) :
    (elementsWith deeper setting nodes record).Stays horizon fun values =>
      (∀ node ∈ nodes, node.Within horizon) → Currently horizon record →
        ∀ value ∈ values, value.Within horizon := by
  cases nodes with
  | nil =>
    rw [elementsWith]
    exact stays_pure fun _ _ _ hvalue => nomatch hvalue
  | cons node rest =>
    rw [elementsWith]
    refine (Node.stays_evaluateWith hdeeper henvironment node record).bind fun value => ?_
    refine (stays_elementsWith hdeeper henvironment rest record).bind fun values => ?_
    refine stays_pure fun hvalues hvalue hnodes hrecord => ?_
    obtain ⟨hnode, hrest⟩ := List.forall_mem_cons.mp hnodes
    exact List.forall_mem_cons.mpr ⟨hvalue hnode hrecord, hvalues hrest hrecord⟩

end

/-! ## Expressions in a scope -/

/-- Parameters with values within a horizon. -/
def Scope.Within (horizon : Horizon) (scope : Scope) : Prop :=
  ∀ entry ∈ scope, entry.2.Within horizon

theorem Scope.stays_value (scope : Scope) (name : String) :
    (scope.value name).Stays horizon fun value => scope.Within horizon → value.Within horizon := by
  unfold Scope.value
  cases hvalue : scope.get? name with
  | none => exact stays_fail _
  | some value =>
    obtain ⟨here, hmem⟩ := Entries.mem_of_get? hvalue
    exact stays_pure fun hscope => hscope (here, value) hmem

mutual

theorem Node.stays_evaluateIn (hdeeper : StayingDeeper horizon deeper)
    (henvironment : setting.environment.Within horizon) (scope : Scope)
    (node : Node) :
    StayingArgument horizon (scope.Within horizon ∧ node.Within horizon)
      (node.evaluateIn deeper setting scope) := by
  have houtside : ∀ record,
      (insideLambda node (node.evaluateWith deeper setting record)).Stays horizon fun value =>
        scope.Within horizon ∧ node.Within horizon → Currently horizon record →
          value.Within horizon := by
    intro record
    exact stays_insideLambda node ((Node.stays_evaluateWith hdeeper henvironment node record).mono
      fun _ hvalue hboth => hvalue hboth.2)
  intro record
  cases node with
  | parameter name =>
    exact (scope.stays_value name).mono fun _ hvalue hboth _ => hvalue hboth.1
  | unary operator operand =>
    refine (Node.stays_evaluateIn hdeeper henvironment scope operand record).bind fun value => ?_
    exact (stays_combineOne operator value).mono fun _ hresult hvalue hboth hrecord =>
      hresult (hvalue ⟨hboth.1, Node.within_unary.mp hboth.2⟩ hrecord)
  | binary operator left right =>
    refine (Node.stays_evaluateIn hdeeper henvironment scope left record).bind fun value => ?_
    refine (stays_combine operator value
      (Node.stays_evaluateIn hdeeper henvironment scope right record)).mono
        fun _ hresult hvalue hboth hrecord => ?_
    obtain ⟨hleft, hright⟩ := Node.within_binary.mp hboth.2
    exact hresult (hvalue ⟨hboth.1, hleft⟩ hrecord) fun _ hother =>
      hother ⟨hboth.1, hright⟩ hrecord
  | array elements =>
    refine (stays_elementsIn hdeeper henvironment scope elements record).bind fun values => ?_
    exact stays_pure fun hvalues hboth hrecord =>
      Value.within_array.mpr (hvalues hboth.1 (Node.within_array.mp hboth.2) hrecord)
  | call function arguments =>
    refine (stays_valuesIn hdeeper henvironment scope arguments record).bind fun values => ?_
    have harguments : ∀ argument ∈ values.map fun value _ => (return value : Eval Value),
        StayingArgument horizon (∀ value ∈ values, value.Within horizon) argument := by
      intro argument hargument _
      obtain ⟨value, hvalue, rfl⟩ := List.mem_map.mp hargument
      exact stays_pure fun hvalues _ => hvalues value hvalue
    refine (Function.stays_apply harguments function record).mono
      fun _ hresult hvalues hboth hrecord => ?_
    exact hresult (hvalues hboth.1 (Node.within_call.mp hboth.2) hrecord) hrecord
  | _ => exact houtside record

theorem stays_elementsIn (hdeeper : StayingDeeper horizon deeper)
    (henvironment : setting.environment.Within horizon) (scope : Scope)
    (nodes : List Node) (record : Option RecordRef) :
    (elementsIn deeper setting scope nodes record).Stays horizon fun values =>
      scope.Within horizon → (∀ node ∈ nodes, node.Within horizon) → Currently horizon record →
        ∀ value ∈ values, value.Within horizon := by
  cases nodes with
  | nil =>
    rw [elementsIn]
    exact stays_pure fun _ _ _ _ hvalue => nomatch hvalue
  | cons node rest =>
    have hrest := stays_elementsIn hdeeper henvironment scope rest record
    have helement : ∀ first : Eval Value, (first.Stays horizon fun value =>
        scope.Within horizon ∧ node.Within horizon → Currently horizon record →
          value.Within horizon) →
        (do return (← first) :: (← elementsIn deeper setting scope rest record) :
          Eval (List Value)).Stays horizon fun values =>
            scope.Within horizon → (∀ other ∈ node :: rest, other.Within horizon) →
              Currently horizon record → ∀ value ∈ values, value.Within horizon := by
      intro first hfirst
      refine hfirst.bind fun value => hrest.bind fun values => ?_
      refine stays_pure fun hvalues hvalue hscope hnodes hrecord => ?_
      obtain ⟨hnode, hothers⟩ := List.forall_mem_cons.mp hnodes
      exact List.forall_mem_cons.mpr
        ⟨hvalue ⟨hscope, hnode⟩ hrecord, hvalues hscope hothers hrecord⟩
    cases node with
    | lambda parameter body =>
      rw [elementsIn]
      exact helement _ ((stays_close parameter body record).mono fun _ hvalue hboth =>
        hvalue (Node.within_lambda.mp hboth.2))
    | _ =>
      rw [elementsIn]
      · exact helement _ (Node.stays_evaluateIn hdeeper henvironment scope _ record)
      · nofun

theorem stays_valuesIn (hdeeper : StayingDeeper horizon deeper)
    (henvironment : setting.environment.Within horizon) (scope : Scope)
    (nodes : List Node) (record : Option RecordRef) :
    (valuesIn deeper setting scope nodes record).Stays horizon fun values =>
      scope.Within horizon → (∀ node ∈ nodes, node.Within horizon) → Currently horizon record →
        ∀ value ∈ values, value.Within horizon := by
  cases nodes with
  | nil =>
    rw [valuesIn]
    exact stays_pure fun _ _ _ _ hvalue => nomatch hvalue
  | cons node rest =>
    rw [valuesIn]
    refine (Node.stays_evaluateIn hdeeper henvironment scope node record).bind fun value => ?_
    refine (stays_valuesIn hdeeper henvironment scope rest record).bind fun values => ?_
    refine stays_pure fun hvalues hvalue hscope hnodes hrecord => ?_
    obtain ⟨hnode, hrest⟩ := List.forall_mem_cons.mp hnodes
    exact List.forall_mem_cons.mpr
      ⟨hvalue ⟨hscope, hnode⟩ hrecord, hvalues hscope hrest hrecord⟩

end

/-! ## Every depth -/

theorem Value.Within.normalized {value : Value} (hvalue : value.Within horizon) :
    (Patchwork.normalized value).Within horizon := by
  cases value with
  | float number => exact Value.within_ofNumber (Value.float.inj hvalue)
  | _ => exact hvalue

theorem stayingCaller_callWith (hdeeper : StayingDeeper horizon deeper)
    (henvironment : setting.environment.Within horizon) :
    StayingCaller horizon (Closure.callWith deeper setting) := by
  intro closure arguments
  unfold Closure.callWith
  split
  · rename_i value
    refine (Node.stays_evaluateIn hdeeper henvironment _ closure.body closure.record).bind
      fun result => stays_pure fun hresult hclosure harguments => ?_
    have hscope : Scope.Within horizon [(closure.parameter, value)] :=
      List.forall_mem_singleton.mpr (harguments value (List.mem_singleton_self value))
    exact (hresult ⟨hscope, hclosure.body⟩ hclosure.record).normalized
  · exact stays_fail _

theorem stayingDeeper_deeperAt (henvironment : setting.environment.Within horizon) (depth : Nat) :
    StayingDeeper horizon (deeperAt setting depth) := by
  induction depth with
  | zero => exact ⟨fun _ _ => stays_fail _, fun _ _ => stays_fail _⟩
  | succ depth ih =>
    exact ⟨Node.stays_evaluateWith ih henvironment, stayingCaller_callWith ih henvironment⟩

/-- An expression within a horizon gives a value within it. -/
theorem Node.stays_evaluate (henvironment : setting.environment.Within horizon) (node : Node) :
    StayingArgument horizon (node.Within horizon) (node.evaluate setting) :=
  Node.stays_evaluateWith (stayingDeeper_deeperAt henvironment nestingLimit) henvironment node

theorem Node.stays_holds (henvironment : setting.environment.Within horizon) (node : Node)
    (purpose : String) (ref : RecordRef) :
    (node.holds setting purpose ref).Stays horizon fun _ => True :=
  (Node.stays_evaluate henvironment node (some ref)).andThen fun _ => stays_plain _

end Patchwork
