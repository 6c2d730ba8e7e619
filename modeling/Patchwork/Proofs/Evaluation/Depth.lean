import Mathlib.Data.List.Forall2
import Patchwork.Evaluation
import Patchwork.Proofs.Agreement

/-!
# Evaluations with more levels left

Tables and closures may be nested only so deep, and an evaluation that would go deeper
fails.  Leaving it more levels changes nothing else: an evaluation that does not end at the
last level comes out the same, with the same changes to the world.
-/

namespace Patchwork

/-- The fault of going deeper than the last level, also where it is put down to a node
inside a lambda. -/
def EvaluationFault.IsTooDeep : EvaluationFault → Prop
  | .tooDeep => True
  | .insideLambda _ cause => cause.IsTooDeep
  | _ => False

/-- The fault of an evaluation that goes deeper than the last level. -/
def Fault.IsTooDeep : Fault → Prop
  | .evaluation fault => fault.IsTooDeep
  | _ => False

namespace Eval

variable {Result Other : Type}

/-- From this world the evaluation goes deeper than the last level. -/
def EndsTooDeep (evaluation : Eval Result) (before : World) : Prop :=
  ∃ fault after, evaluation.run before = (.error fault, after) ∧ fault.IsTooDeep

/-- From every world the first evaluation goes too deep or does what the second one does. -/
def Deepens (shallow deep : Eval Result) : Prop :=
  ∀ before, shallow.EndsTooDeep before ∨ deep.run before = shallow.run before

namespace Deepens

variable {shallow deep : Eval Result}

theorem refl (evaluation : Eval Result) : Deepens evaluation evaluation :=
  fun _ => .inr rfl

theorem of_tooDeep (deep : Eval Result) : Deepens (fail .tooDeep) deep :=
  fun before => .inl ⟨.evaluation .tooDeep, before, rfl, trivial⟩

theorem bind {next next' : Result → Eval Other} (hfirst : Deepens shallow deep)
    (hnext : ∀ result, Deepens (next result) (next' result)) :
    Deepens (shallow >>= next) (deep >>= next') := by
  intro before
  unfold EndsTooDeep
  rw [Agree.Computations.run_bind, Agree.Computations.run_bind]
  obtain ⟨fault, after, hrun, hfault⟩ | hsame := hfirst before
  · rw [hrun]
    exact .inl ⟨fault, after, rfl, hfault⟩
  rw [hsame]
  cases shallow.run before with
  | mk outcome between =>
    cases outcome with
    | error fault => exact .inr rfl
    | ok result => exact hnext result between

/-- A first step that goes no deeper. -/
theorem same_bind {evaluation : Eval Result} {next next' : Result → Eval Other}
    (hnext : ∀ result, Deepens (next result) (next' result)) :
    Deepens (evaluation >>= next) (evaluation >>= next') :=
  (refl evaluation).bind hnext

/-- Further steps that go no deeper. -/
theorem bind_same (hfirst : Deepens shallow deep) (next : Result → Eval Other) :
    Deepens (shallow >>= next) (deep >>= next) :=
  hfirst.bind fun result => refl (next result)

theorem forM {Item : Type} {step step' : Item → Eval PUnit}
    (hstep : ∀ item, Deepens (step item) (step' item)) (items : List Item) :
    Deepens (items.forM step) (items.forM step') := by
  induction items with
  | nil => exact refl _
  | cons item rest ih => exact (hstep item).bind fun _ => ih

theorem mapM {Item Item' : Type} {related : Item → Item' → Prop} {items : List Item}
    {items' : List Item'} {step : Item → Eval Result} {step' : Item' → Eval Result}
    (hitems : List.Forall₂ related items items')
    (hstep : ∀ item item', related item item' → Deepens (step item) (step' item')) :
    Deepens (items.mapM step) (items'.mapM step') := by
  induction hitems with
  | nil => exact refl _
  | cons hitem _ ih =>
    rw [List.mapM_cons, List.mapM_cons]
    exact (hstep _ _ hitem).bind fun _ => ih.bind_same _

theorem insideLambda (node : Node) (hdeepens : Deepens shallow deep) :
    Deepens (insideLambda node shallow) (insideLambda node deep) := by
  intro before
  unfold EndsTooDeep Patchwork.insideLambda
  rw [Agree.Computations.run_tryCatch, Agree.Computations.run_tryCatch]
  obtain ⟨fault, after, hrun, hfault⟩ | hsame := hdeepens before
  · rw [hrun]
    cases fault with
    | evaluation cause =>
      exact .inl ⟨.evaluation (.insideLambda node.kindName cause), after, rfl, hfault⟩
    | _ => exact hfault.elim
  · rw [hsame]
    exact .inr rfl

end Deepens

end Eval

open Eval

/-- Arguments that do the same for every record, unless the first goes too deep. -/
def Argument.Deepens (shallow deep : Argument) : Prop :=
  ∀ record, Eval.Deepens (shallow record) (deep record)

/-- Ways of calling closures that do the same, unless the first goes too deep. -/
def Caller.Deepens (shallow deep : Caller) : Prop :=
  ∀ closure values, Eval.Deepens (shallow closure values) (deep closure values)

namespace Eval.Deepens

variable {arguments arguments' : List Argument} {record : Option RecordRef}

theorem argument (name : String) (harguments : List.Forall₂ Argument.Deepens arguments arguments')
    (position : Nat) (record : Option RecordRef) :
    Deepens (argument name arguments position record)
      (argument name arguments' position record) := by
  unfold Eval.argument
  induction harguments generalizing position with
  | nil => exact refl _
  | cons hfirst _ ih =>
    cases position with
    | zero => exact hfirst record
    | succ position =>
      rw [List.getElem?_cons_succ, List.getElem?_cons_succ]
      exact ih position

/-! ## Functions, predicates and commands -/

theorem function_result (function : Function)
    (harguments : List.Forall₂ Argument.Deepens arguments arguments') :
    Deepens (function.result record arguments) (function.result record arguments') := by
  have hargument := fun position => argument function.name harguments position record
  cases function with
  | getField =>
    refine same_bind fun ref => (hargument 0).bind_same _
  | toInt | toFloat | min | max | count => exact (hargument 0).bind_same _
  | randomFloat => exact refl _
  | arrIndex | randomBetweenInts | containsExact | containsFolded | clone =>
    refine (hargument 0).bind fun value => same_bind fun first => ?_
    exact (hargument 1).bind_same _

theorem function_apply (function : Function)
    (harguments : List.Forall₂ Argument.Deepens arguments arguments') :
    Deepens (function.apply record arguments) (function.apply record arguments') :=
  (function_result function harguments).bind_same mark

theorem linkArguments (harguments : List.Forall₂ Argument.Deepens arguments arguments')
    {argument argument' : Nat → Eval Value}
    (hargument : ∀ position, Deepens (argument position) (argument' position)) :
    Deepens (Predicate.linkArguments arguments argument)
      (Predicate.linkArguments arguments' argument') := by
  unfold Predicate.linkArguments
  rw [← harguments.length_eq]
  refine (hargument 0).bind fun value => same_bind fun group => ?_
  split
  · exact refl _
  refine (hargument 1).bind fun second => same_bind fun category => ?_
  split
  · exact refl _
  · exact (hargument 2).bind_same _

theorem testField (predicate : Predicate) {argument argument' : Nat → Eval Value}
    (hargument : ∀ position, Deepens (argument position) (argument' position))
    (test : Record → String → Bool) :
    Deepens (predicate.testField record argument test)
      (predicate.testField record argument' test) :=
  same_bind fun _ => (hargument 0).bind_same _

theorem testLinks (predicate : Predicate)
    (harguments : List.Forall₂ Argument.Deepens arguments arguments')
    {argument argument' : Nat → Eval Value}
    (hargument : ∀ position, Deepens (argument position) (argument' position))
    (test : Record → List Record → Option String → Option (List Int) → Bool) :
    Deepens (predicate.testLinks record arguments argument test)
      (predicate.testLinks record arguments' argument' test) :=
  same_bind fun _ => (linkArguments harguments hargument).bind_same _

theorem predicate_apply (predicate : Predicate)
    (harguments : List.Forall₂ Argument.Deepens arguments arguments') :
    Deepens (predicate.apply record arguments) (predicate.apply record arguments') := by
  have hargument := fun position => argument predicate.name harguments position record
  cases predicate with
  | always | never | isRemoved => exact refl _
  | fieldExist | fieldIsNotEmpty | fieldIsEmptyOrNotExist | fieldIsEmptyAndExist =>
    unfold Predicate.apply
    exact testField _ hargument _
  | isLinkOfAny | linksAny | linksAll =>
    unfold Predicate.apply
    exact testLinks _ harguments hargument _

theorem joinedArguments (harguments : List.Forall₂ Argument.Deepens arguments arguments') :
    Deepens (Command.joinedArguments record arguments)
      (Command.joinedArguments record arguments') :=
  (mapM harguments fun _ _ hargument => (hargument record).bind_same _).bind_same _

theorem command_apply (repository : Repository) (command : Command)
    (harguments : List.Forall₂ Argument.Deepens arguments arguments') :
    Deepens (command.apply repository record arguments)
      (command.apply repository record arguments') := by
  have hargument := fun position => argument command.name harguments position record
  cases command with
  | print | debug => exact (joinedArguments harguments).bind_same _
  | inspectRecord =>
    refine (hargument 0).bind fun value => same_bind fun group => ?_
    exact (hargument 1).bind_same _
  | showRecordEvolution => exact (hargument 0).bind_same _
  | stop => exact refl _

/-! ## Procedures -/

variable {caller caller' : Caller} {target source : RecordRef}

theorem transform (hcaller : caller.Deepens caller') (closure : Closure) (number : Int) :
    Deepens (Procedure.transform caller closure number)
      (Procedure.transform caller' closure number) :=
  (hcaller closure _).bind_same _

theorem validate (hcaller : caller.Deepens caller') (closure : Closure) (payload : List Int) :
    Deepens (Procedure.validate caller closure payload)
      (Procedure.validate caller' closure payload) :=
  (hcaller closure _).bind_same _

theorem transformPayload (hcaller : caller.Deepens caller') (closures : List Closure)
    (payload : List Int) :
    Deepens (Procedure.transformPayload (closures.map (Procedure.transform caller)) payload)
      (Procedure.transformPayload (closures.map (Procedure.transform caller')) payload) := by
  induction payload generalizing closures with
  | nil =>
    unfold Procedure.transformPayload
    exact refl _
  | cons number rest ih =>
    cases closures with
    | nil => exact refl _
    | cons closure others =>
      exact (transform hcaller closure number).bind fun _ => (ih others).bind_same _

theorem editLinks (hcaller : caller.Deepens caller') (closures : List Closure)
    {accepts accepts' : List Int → Eval Bool}
    (haccepts : ∀ payload, Deepens (accepts payload) (accepts' payload)) (links : List Link) :
    Deepens (Procedure.editLinks target (closures.map (Procedure.transform caller)) accepts links)
      (Procedure.editLinks target (closures.map (Procedure.transform caller')) accepts'
        links) := by
  induction links with
  | nil => exact refl _
  | cons link rest ih =>
    refine (haccepts link.payload).bind fun accepted => ?_
    split
    · refine (transformPayload hcaller closures link.payload).bind fun payload => ?_
      exact same_bind fun _ => ih.bind_same _
    · exact ih

/-- What is done with the validator a third argument gives. -/
theorem validatorArgument (hcaller : caller.Deepens caller')
    (harguments : List.Forall₂ Argument.Deepens arguments arguments')
    {argument argument' : Nat → Eval Value}
    (hargument : ∀ position, Deepens (argument position) (argument' position))
    {next next' : (List Int → Eval Bool) → Eval Other}
    (hnext : ∀ accepts accepts' : List Int → Eval Bool,
      (∀ payload, Deepens (accepts payload) (accepts' payload)) →
        Deepens (next accepts) (next' accepts')) :
    Deepens (Procedure.validatorArgument caller arguments argument >>= next)
      (Procedure.validatorArgument caller' arguments' argument' >>= next') := by
  unfold Procedure.validatorArgument
  rw [← harguments.length_eq]
  split
  · exact hnext _ _ fun _ => refl _
  · simp only [bind_assoc]
    refine (hargument 2).bind fun value => same_bind fun closure => ?_
    exact hnext _ _ (validate hcaller closure)

theorem onTarget (hcaller : caller.Deepens caller') (procedure : Procedure)
    (harguments : List.Forall₂ Argument.Deepens arguments arguments') :
    Deepens (procedure.onTarget caller arguments target)
      (procedure.onTarget caller' arguments' target) := by
  have hargument := fun position => argument procedure.name harguments position (some target)
  cases procedure with
  | setField =>
    refine (hargument 0).bind fun first => same_bind fun name => ?_
    exact (hargument 1).bind_same _
  | forceSetField =>
    refine (hargument 0).bind fun first => same_bind fun name => ?_
    refine (hargument 1).bind fun value => ?_
    exact (hargument 2).bind_same _
  | deleteRecords => exact refl _
  | editExtraData =>
    refine (hargument 0).bind fun first => same_bind fun category => ?_
    refine (hargument 1).bind fun second => same_bind fun lambdas => same_bind fun closures => ?_
    refine validatorArgument hcaller harguments hargument fun accepts accepts' haccepts => ?_
    refine bind_same (same_bind fun current => ?_) _
    exact editLinks hcaller closures haccepts _
  | _ => exact refl _

theorem payloadArgument (harguments : List.Forall₂ Argument.Deepens arguments arguments')
    {argument argument' : Nat → Eval Value}
    (hargument : ∀ position, Deepens (argument position) (argument' position))
    (position : Nat) :
    Deepens (Procedure.payloadArgument arguments argument position)
      (Procedure.payloadArgument arguments' argument' position) := by
  unfold Procedure.payloadArgument
  rw [← harguments.length_eq]
  split
  · exact refl _
  · exact (hargument position).bind_same _

theorem linkPair (procedure : Procedure)
    (harguments : List.Forall₂ Argument.Deepens arguments arguments') (forced : Bool) :
    Deepens (Procedure.linkPair procedure arguments target source forced)
      (Procedure.linkPair procedure arguments' target source forced) := by
  have hargument := fun position => argument procedure.name harguments position (some target)
  refine (hargument 1).bind fun first => same_bind fun category => ?_
  exact (payloadArgument harguments hargument 2).bind_same _

theorem setFromSource (hcaller : caller.Deepens caller') (procedure : Procedure)
    (harguments : List.Forall₂ Argument.Deepens arguments arguments') :
    Deepens (Procedure.setFromSource caller procedure arguments target source)
      (Procedure.setFromSource caller' procedure arguments' target source) := by
  have hargument := argument procedure.name harguments
  refine (hargument 1 (some target)).bind fun first => same_bind fun name => ?_
  refine same_bind fun before => ?_
  dsimp only
  split
  · exact refl _
  refine (hargument 2 (some source)).bind fun second => same_bind fun closure => ?_
  refine same_bind fun current => same_bind fun value => ?_
  exact (hcaller closure [value]).bind_same _

theorem onPair (hcaller : caller.Deepens caller') (procedure : Procedure)
    (harguments : List.Forall₂ Argument.Deepens arguments arguments') :
    Deepens (procedure.onPair caller arguments target source)
      (procedure.onPair caller' arguments' target source) := by
  cases procedure with
  | addExtraData => exact linkPair _ harguments false
  | forceAddExtraData => exact linkPair _ harguments true
  | setFieldFromOther => exact setFromSource hcaller _ harguments
  | _ => exact refl _

theorem procedure_apply (hcaller : caller.Deepens caller') (procedure : Procedure)
    (harguments : List.Forall₂ Argument.Deepens arguments arguments') (targets : Group)
    (pairwise : Bool) :
    Deepens (procedure.apply caller arguments targets pairwise)
      (procedure.apply caller' arguments' targets pairwise) := by
  refine same_bind fun mod => ?_
  dsimp only
  split
  · refine (argument procedure.name harguments 0 none).bind fun value => ?_
    refine same_bind fun group => same_bind fun paired => ?_
    exact (forM (fun pair => onPair hcaller procedure harguments) paired).bind_same _
  · exact (forM (fun target => onTarget hcaller procedure harguments) targets.records).bind_same _

end Eval.Deepens

/-! ## Expressions -/

/-- Steps one level deeper that do the same, unless the first go too deep. -/
structure Deeper.Deepens (shallow deep : Deeper) : Prop where
  entry : ∀ node, (shallow.entry node).Deepens (deep.entry node)
  call : shallow.call.Deepens deep.call

namespace Deeper.Deepens

variable {shallow deep : Deeper}

theorem combine (operator : BinaryOperator) (left : Value) {right right' : Eval Value}
    (hright : Eval.Deepens right right') :
    Eval.Deepens (combine operator left right) (combine operator left right') := by
  unfold Patchwork.combine
  split
  · refine Eval.Deepens.same_bind fun flag => ?_
    cases operator.decided? flag with
    | some decided => exact Eval.Deepens.refl _
    | none => exact hright.bind_same _
  · exact hright.bind_same _

theorem valueAt (hdeepens : shallow.Deepens deep) (setting : Setting) (target position : Value) :
    Argument.Deepens (valueAt shallow setting target position)
      (valueAt deep setting target position) := by
  intro record
  cases target with
  | table table =>
    exact Eval.Deepens.same_bind fun labels => Eval.Deepens.same_bind fun node =>
      hdeepens.entry node record
  | _ => exact Eval.Deepens.refl _

theorem pipeInto (hdeepens : shallow.Deepens deep) (left : Value) (procedure : Procedure)
    {arguments arguments' : List Argument}
    (harguments : List.Forall₂ Argument.Deepens arguments arguments') (pairwise : Bool) :
    Eval.Deepens (pipeInto shallow left procedure arguments pairwise)
      (pipeInto deep left procedure arguments' pairwise) :=
  Eval.Deepens.same_bind fun group =>
    (Eval.Deepens.procedure_apply hdeepens.call procedure harguments group pairwise).bind_same _

mutual

theorem evaluateWith (hdeepens : shallow.Deepens deep) (setting : Setting) (node : Node) :
    Argument.Deepens (node.evaluateWith shallow setting) (node.evaluateWith deep setting) := by
  intro record
  cases node with
  | literal | parameter | tableName | group | procedure | lambda => exact Eval.Deepens.refl _
  | unary operator operand => exact (evaluateWith hdeepens setting operand record).bind_same _
  | binary operator left right =>
    exact (evaluateWith hdeepens setting left record).bind fun value =>
      combine operator value (evaluateWith hdeepens setting right record)
  | call function arguments =>
    exact Eval.Deepens.function_apply function (argumentsWith hdeepens setting arguments)
  | test predicate arguments =>
    exact (Eval.Deepens.predicate_apply predicate
      (argumentsWith hdeepens setting arguments)).bind_same _
  | array elements => exact (elementsWith hdeepens setting elements record).bind_same _
  | index target position =>
    refine (evaluateWith hdeepens setting target record).bind fun value => ?_
    refine (evaluateWith hdeepens setting position record).bind fun index => ?_
    exact valueAt hdeepens setting value index record
  | pipe left procedure arguments pairwise =>
    exact (evaluateWith hdeepens setting left record).bind fun value =>
      pipeInto hdeepens value procedure (argumentsWith hdeepens setting arguments) pairwise
  | command command arguments =>
    exact (Eval.Deepens.command_apply setting.repository command
      (argumentsWith hdeepens setting arguments)).bind_same _

theorem argumentsWith (hdeepens : shallow.Deepens deep) (setting : Setting) (nodes : List Node) :
    List.Forall₂ Argument.Deepens (argumentsWith shallow setting nodes)
      (argumentsWith deep setting nodes) := by
  cases nodes with
  | nil => exact List.Forall₂.nil
  | cons node rest =>
    exact List.Forall₂.cons (evaluateWith hdeepens setting node)
      (argumentsWith hdeepens setting rest)

theorem elementsWith (hdeepens : shallow.Deepens deep) (setting : Setting) (nodes : List Node)
    (record : Option RecordRef) :
    Eval.Deepens (elementsWith shallow setting nodes record)
      (elementsWith deep setting nodes record) := by
  cases nodes with
  | nil => exact Eval.Deepens.refl _
  | cons node rest =>
    exact (evaluateWith hdeepens setting node record).bind fun value =>
      (elementsWith hdeepens setting rest record).bind_same _

end

mutual

theorem evaluateIn (hdeepens : shallow.Deepens deep) (setting : Setting) (scope : Scope)
    (node : Node) :
    Argument.Deepens (node.evaluateIn shallow setting scope)
      (node.evaluateIn deep setting scope) := by
  intro record
  cases node with
  | parameter => exact Eval.Deepens.refl _
  | unary operator operand =>
    exact (evaluateIn hdeepens setting scope operand record).bind_same _
  | binary operator left right =>
    exact (evaluateIn hdeepens setting scope left record).bind fun value =>
      combine operator value (evaluateIn hdeepens setting scope right record)
  | array elements => exact (elementsIn hdeepens setting scope elements record).bind_same _
  | call function arguments =>
    exact (valuesIn hdeepens setting scope arguments record).bind_same _
  | _ => exact (evaluateWith hdeepens setting _ record).insideLambda _

theorem elementsIn (hdeepens : shallow.Deepens deep) (setting : Setting) (scope : Scope)
    (nodes : List Node) (record : Option RecordRef) :
    Eval.Deepens (elementsIn shallow setting scope nodes record)
      (elementsIn deep setting scope nodes record) := by
  cases nodes with
  | nil => exact Eval.Deepens.refl _
  | cons node rest =>
    have hrest := elementsIn hdeepens setting scope rest record
    have hnode := evaluateIn hdeepens setting scope node record
    cases node with
    | lambda parameter body => exact Eval.Deepens.same_bind fun _ => hrest.bind_same _
    | _ => exact hnode.bind fun _ => hrest.bind_same _

theorem valuesIn (hdeepens : shallow.Deepens deep) (setting : Setting) (scope : Scope)
    (nodes : List Node) (record : Option RecordRef) :
    Eval.Deepens (valuesIn shallow setting scope nodes record)
      (valuesIn deep setting scope nodes record) := by
  cases nodes with
  | nil => exact Eval.Deepens.refl _
  | cons node rest =>
    exact (evaluateIn hdeepens setting scope node record).bind fun value =>
      (valuesIn hdeepens setting scope rest record).bind_same _

end

theorem callWith (hdeepens : shallow.Deepens deep) (setting : Setting) :
    Caller.Deepens (Closure.callWith shallow setting) (Closure.callWith deep setting) := by
  intro closure values
  unfold Closure.callWith
  split
  · exact (evaluateIn hdeepens setting _ closure.body closure.record).bind_same _
  · exact Eval.Deepens.refl _

/-- One more level changes nothing but what goes too deep. -/
theorem deeperAt_succ (setting : Setting) (depth : Nat) :
    (deeperAt setting depth).Deepens (deeperAt setting (depth + 1)) := by
  induction depth with
  | zero => exact ⟨fun _ _ => Eval.Deepens.of_tooDeep _, fun _ _ => Eval.Deepens.of_tooDeep _⟩
  | succ depth ih => exact ⟨ih.evaluateWith setting, ih.callWith setting⟩

end Deeper.Deepens

end Patchwork
