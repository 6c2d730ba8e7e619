import Patchwork.Proofs.Likeness.Calls

/-!
# Evaluation of like expressions

Like expressions come out alike in like settings, at every depth: first if the steps that
lead one level deeper come out alike, and then for each number of levels.  Calling like
closures with like values comes out alike, too.
-/

namespace Patchwork

open Eval

namespace Likeness

variable {likeness : Likeness}

/-- Settings with the same loaded mods in which a name in front of an index stands for
like values and a table entry for like expressions. -/
structure Settings (likeness : Likeness) (setting setting' : Setting) : Prop where
  repository : setting'.repository = setting.repository
  named : ∀ name, likeness.Nodes (.tableName name) (.tableName name) →
    likeness.Values (setting.environment.tableOrDefinition name)
      (setting'.environment.tableOrDefinition name)
  entry : ∀ table key, Option.Rel likeness.Nodes
    (setting.environment.tableEntry table key).toOption
    (setting'.environment.tableEntry table key).toOption

/-- Steps that lead one level deeper and come out alike. -/
structure Deepers (likeness : Likeness) (deeper deeper' : Deeper) : Prop where
  entry : ∀ node node', likeness.Nodes node node' →
    likeness.Arguments (deeper.entry node) (deeper'.entry node')
  call : likeness.Callers deeper.call deeper'.call

variable {deeper deeper' : Deeper} {setting setting' : Setting}

/-! ## Operators and indexes -/

theorem combine_alike (operator : BinaryOperator) {left left' : Value}
    (hleft : likeness.Values left left') {right right' : Eval Value}
    (hright : Alike likeness.Values right right') :
    Alike likeness.Values (combine operator left right) (combine operator left' right') := by
  unfold combine
  split
  · refine hleft.asBoolean.of_bind_eq fun flag => ?_
    cases operator.decided? flag with
    | some decided => exact Alike.of_pure (values_atom trivial)
    | none =>
      refine hright.of_bind fun value value' hvalues => ?_
      exact hvalues.asBoolean.of_bind_eq fun second => Alike.of_pure (values_atom trivial)
  · refine hright.of_bind fun value value' hvalues => ?_
    have happly : Alike likeness.Values (labelled fun labels => operator.apply labels left value)
        (labelled fun labels => operator.apply labels left' value') := by
      simp only [apply_eq hleft hvalues]
      refine alike_of_gives fun before result after hyields => ?_
      obtain ⟨hresult, -⟩ := yields_labelled.mp hyields
      exact values_of_data result
        ((BinaryOperator.meets_apply _ operator left value).gives result hresult)
    exact happly.of_bind fun _ _ => mark_alike

theorem combineOne_alike (operator : UnaryOperator) {operand operand' : Value}
    (hoperand : likeness.Values operand operand') :
    Alike likeness.Values (combineOne operator operand) (combineOne operator operand') := by
  have happly : Alike likeness.Values (labelled fun labels => operator.apply labels operand)
      (labelled fun labels => operator.apply labels operand') := by
    simp only [unary_apply_eq hoperand]
    refine alike_of_gives fun before result after hyields => ?_
    obtain ⟨hresult, -⟩ := yields_labelled.mp hyields
    exact values_of_data result
      ((UnaryOperator.meets_apply _ operator operand).gives result hresult)
  exact happly.of_bind fun _ _ => mark_alike

theorem close_alike (parameter : String) {body body' : Node} (hbody : likeness.Bodies body body')
    (record : Option RecordRef) :
    Alike likeness.Values (close parameter body record) (close parameter body' record) :=
  Alike.of_same_bind fun identity =>
    Alike.of_pure (likeness.values_iff.mpr (.closure identity parameter record hbody))

theorem valueAt_alike (hdeepers : likeness.Deepers deeper deeper')
    (hsettings : likeness.Settings setting setting') {target target' position position' : Value}
    (htarget : likeness.Values target target')
    (hposition : likeness.Values position position') :
    likeness.Arguments (valueAt deeper setting target position)
      (valueAt deeper' setting' target' position') := by
  intro record
  cases likeness.values_iff.mp htarget with
  | @array items items' hitems =>
    refine hposition.asInteger.of_bind_eq fun index => ?_
    unfold elementAt
    by_cases hnegative : index < 0
    · simp only [hnegative, if_true]
      exact Alike.of_fail _ _
    · simp only [hnegative, if_false]
      have helements := rel_getElem? hitems index.toNat
      generalize items[index.toNat]? = element, items'[index.toNat]? = element'
        at helements ⊢
      cases helements with
      | none => exact Alike.of_fail _ _
      | some helement => exact Alike.of_pure helement
  | closure => exact Alike.of_same_bind fun labels => Alike.of_fail _ _
  | atom hatom =>
    cases target with
    | table table =>
      refine Alike.of_same_bind fun labels => ?_
      dsimp only
      rw [likeness.display hposition labels]
      exact (Alike.of_settle (hsettings.entry table _)).of_bind fun node node' hnodes =>
        hdeepers.entry node node' hnodes record
    | array | closure => exact hatom.elim
    | _ => exact Alike.of_same_bind fun labels => Alike.of_fail _ _

theorem pipeInto_alike (hdeepers : likeness.Deepers deeper deeper') {left left' : Value}
    (hleft : likeness.Values left left') (procedure : Procedure)
    {arguments arguments' : List Argument}
    (harguments : List.Forall₂ likeness.Arguments arguments arguments') (pairwise : Bool) :
    Alike likeness.Values (pipeInto deeper left procedure arguments pairwise)
      (pipeInto deeper' left' procedure arguments' pairwise) :=
  (hleft.group _).of_bind_eq fun group =>
    (procedure_apply_alike hdeepers.call procedure harguments group pairwise).of_bind_eq
      fun _ => Alike.of_pure hleft

/-! ## Expressions without a scope -/

mutual

theorem evaluateWith_alike (hdeepers : likeness.Deepers deeper deeper')
    (hsettings : likeness.Settings setting setting') (node : Node) {node' : Node}
    (hnodes : likeness.Nodes node node') :
    likeness.Arguments (node.evaluateWith deeper setting)
      (node'.evaluateWith deeper' setting') := by
  intro record
  obtain hshape | hmeaning := likeness.nodes_shape hnodes
  swap
  · exact hmeaning.evaluateWith deeper deeper' setting setting' record
  cases node with
  | literal value =>
    obtain ⟨hvalue⟩ := hshape
    exact Alike.of_pure hvalue
  | parameter name =>
    cases hshape
    exact Alike.of_fail _ _
  | unary operator operand =>
    cases hshape with
    | unary _ hoperand =>
      exact (evaluateWith_alike hdeepers hsettings operand hoperand record).of_bind
        fun _ _ => combineOne_alike operator
  | binary operator left right =>
    cases hshape with
    | binary _ hleft hright =>
      refine (evaluateWith_alike hdeepers hsettings left hleft record).of_bind
        fun value value' hvalues => ?_
      exact combine_alike operator hvalues
        (evaluateWith_alike hdeepers hsettings right hright record)
  | call function arguments =>
    cases hshape with
    | call _ harguments =>
      exact function_apply_alike function
        (argumentsWith_alike hdeepers hsettings arguments harguments)
  | test predicate arguments =>
    cases hshape with
    | test _ harguments =>
      exact (predicate_apply_alike predicate
        (argumentsWith_alike hdeepers hsettings arguments harguments)).of_bind_eq
          fun verdict => Alike.of_pure (values_atom trivial)
  | array elements =>
    cases hshape with
    | array helements =>
      exact (elementsWith_alike hdeepers hsettings elements helements record).of_bind
        fun _ _ hitems => Alike.of_pure (values_array hitems)
  | tableName name =>
    cases hshape
    exact Alike.of_pure (hsettings.named name hnodes)
  | index target position =>
    cases hshape with
    | index htarget hposition =>
      refine (evaluateWith_alike hdeepers hsettings target htarget record).of_bind
        fun value value' hvalues => ?_
      refine (evaluateWith_alike hdeepers hsettings position hposition record).of_bind
        fun index index' hindexes => ?_
      exact valueAt_alike hdeepers hsettings hvalues hindexes record
  | group group =>
    cases hshape
    exact Alike.of_pure (values_atom trivial)
  | procedure procedure arguments pairwise =>
    cases hshape
    exact Alike.of_fail _ _
  | pipe left procedure arguments pairwise =>
    cases hshape with
    | pipe _ _ hleft harguments =>
      refine (evaluateWith_alike hdeepers hsettings left hleft record).of_bind
        fun value value' hvalues => ?_
      exact pipeInto_alike hdeepers hvalues procedure
        (argumentsWith_alike hdeepers hsettings arguments harguments) pairwise
  | lambda parameter body =>
    cases hshape with
    | lambda _ hbody => exact close_alike parameter hbody record
  | command command arguments =>
    cases hshape with
    | command _ harguments =>
      refine Alike.of_bind_eq ?_ fun _ => Alike.of_pure (values_atom trivial)
      rw [hsettings.repository]
      exact command_apply_alike setting.repository command
        (argumentsWith_alike hdeepers hsettings arguments harguments)

theorem argumentsWith_alike (hdeepers : likeness.Deepers deeper deeper')
    (hsettings : likeness.Settings setting setting') (nodes : List Node) {nodes' : List Node}
    (hnodes : List.Forall₂ likeness.Nodes nodes nodes') :
    List.Forall₂ likeness.Arguments (argumentsWith deeper setting nodes)
      (argumentsWith deeper' setting' nodes') := by
  cases nodes with
  | nil =>
    cases hnodes
    exact List.Forall₂.nil
  | cons node rest =>
    cases hnodes with
    | cons hnode hrest =>
      exact List.Forall₂.cons (evaluateWith_alike hdeepers hsettings node hnode)
        (argumentsWith_alike hdeepers hsettings rest hrest)

theorem elementsWith_alike (hdeepers : likeness.Deepers deeper deeper')
    (hsettings : likeness.Settings setting setting') (nodes : List Node) {nodes' : List Node}
    (hnodes : List.Forall₂ likeness.Nodes nodes nodes') (record : Option RecordRef) :
    Alike (List.Forall₂ likeness.Values) (elementsWith deeper setting nodes record)
      (elementsWith deeper' setting' nodes' record) := by
  cases nodes with
  | nil =>
    cases hnodes
    exact Alike.of_pure List.Forall₂.nil
  | cons node rest =>
    cases hnodes with
    | cons hnode hrest =>
      refine (evaluateWith_alike hdeepers hsettings node hnode record).of_bind
        fun _ _ hfirst => ?_
      exact (elementsWith_alike hdeepers hsettings rest hrest record).of_bind
        fun _ _ hothers => Alike.of_pure (List.Forall₂.cons hfirst hothers)

end

/-! ## Expressions in a scope -/

/-- Like values for the same parameters. -/
def Scopes (likeness : Likeness) (scope scope' : Scope) : Prop :=
  ∀ name, Option.Rel likeness.Values (scope.get? name) (scope'.get? name)

variable {scope scope' : Scope}

theorem scope_value_alike (hscopes : likeness.Scopes scope scope') (name : String) :
    Alike likeness.Values (scope.value name) (scope'.value name) := by
  have hvalues := hscopes name
  unfold Scope.value
  generalize scope.get? name = found, scope'.get? name = found' at hvalues ⊢
  cases hvalues with
  | none => exact Alike.of_fail _ _
  | some hvalue => exact Alike.of_pure hvalue

mutual

theorem evaluateIn_alike (hdeepers : likeness.Deepers deeper deeper')
    (hsettings : likeness.Settings setting setting') (hscopes : likeness.Scopes scope scope')
    (node : Node) {node' : Node} (hnodes : likeness.Nodes node node') :
    likeness.Arguments (node.evaluateIn deeper setting scope)
      (node'.evaluateIn deeper' setting' scope') := by
  intro record
  obtain hshape | hmeaning := likeness.nodes_shape hnodes
  swap
  · exact hmeaning.evaluateIn deeper deeper' setting setting' scope scope' record
  have hwithout : Alike likeness.Values
      (insideLambda node (node.evaluateWith deeper setting record))
      (insideLambda node' (node'.evaluateWith deeper' setting' record)) :=
    Alike.of_insideLambda (evaluateWith_alike hdeepers hsettings node hnodes record)
  cases node with
  | parameter name =>
    cases hshape
    exact scope_value_alike hscopes name
  | unary operator operand =>
    cases hshape with
    | unary _ hoperand =>
      exact (evaluateIn_alike hdeepers hsettings hscopes operand hoperand record).of_bind
        fun _ _ => combineOne_alike operator
  | binary operator left right =>
    cases hshape with
    | binary _ hleft hright =>
      refine (evaluateIn_alike hdeepers hsettings hscopes left hleft record).of_bind
        fun value value' hvalues => ?_
      exact combine_alike operator hvalues
        (evaluateIn_alike hdeepers hsettings hscopes right hright record)
  | call function arguments =>
    cases hshape with
    | call _ harguments =>
      refine (valuesIn_alike hdeepers hsettings hscopes arguments harguments record).of_bind
        fun values values' hvalues => function_apply_alike function ?_
      rw [List.forall₂_map_left_iff, List.forall₂_map_right_iff]
      exact hvalues.imp fun _ _ hvalue _ => Alike.of_pure hvalue
  | array elements =>
    cases hshape with
    | array helements =>
      exact (elementsIn_alike hdeepers hsettings hscopes elements helements record).of_bind
        fun _ _ hitems => Alike.of_pure (values_array hitems)
  | _ =>
    cases hshape
    exact hwithout

theorem elementsIn_alike (hdeepers : likeness.Deepers deeper deeper')
    (hsettings : likeness.Settings setting setting') (hscopes : likeness.Scopes scope scope')
    (nodes : List Node) {nodes' : List Node}
    (hnodes : List.Forall₂ likeness.Nodes nodes nodes') (record : Option RecordRef) :
    Alike (List.Forall₂ likeness.Values) (elementsIn deeper setting scope nodes record)
      (elementsIn deeper' setting' scope' nodes' record) := by
  cases nodes with
  | nil =>
    cases hnodes
    exact Alike.of_pure List.Forall₂.nil
  | cons node rest =>
    cases hnodes with
    | cons hnode hrest =>
      refine Alike.congr ?_ (sameYields_elementsIn_cons deeper setting scope _ _ record)
        (sameYields_elementsIn_cons deeper' setting' scope' _ _ record)
      refine (evaluateIn_alike hdeepers hsettings hscopes node hnode record).of_bind
        fun _ _ hfirst => ?_
      exact (elementsIn_alike hdeepers hsettings hscopes rest hrest record).of_bind
        fun _ _ hothers => Alike.of_pure (List.Forall₂.cons hfirst hothers)

theorem valuesIn_alike (hdeepers : likeness.Deepers deeper deeper')
    (hsettings : likeness.Settings setting setting') (hscopes : likeness.Scopes scope scope')
    (nodes : List Node) {nodes' : List Node}
    (hnodes : List.Forall₂ likeness.Nodes nodes nodes') (record : Option RecordRef) :
    Alike (List.Forall₂ likeness.Values) (valuesIn deeper setting scope nodes record)
      (valuesIn deeper' setting' scope' nodes' record) := by
  cases nodes with
  | nil =>
    cases hnodes
    exact Alike.of_pure List.Forall₂.nil
  | cons node rest =>
    cases hnodes with
    | cons hnode hrest =>
      refine (evaluateIn_alike hdeepers hsettings hscopes node hnode record).of_bind
        fun _ _ hfirst => ?_
      exact (valuesIn_alike hdeepers hsettings hscopes rest hrest record).of_bind
        fun _ _ hothers => Alike.of_pure (List.Forall₂.cons hfirst hothers)

end

/-! ## Every depth -/

theorem normalized_alike {value value' : Value} (hvalues : likeness.Values value value') :
    likeness.Values (normalized value) (normalized value') := by
  cases likeness.values_iff.mp hvalues with
  | array hitems => exact values_array hitems
  | closure => exact hvalues
  | atom hatom =>
    cases value with
    | float number => exact values_of_data _ (Value.data_ofNumber number)
    | _ => exact hvalues

theorem callWith_alike (hdeepers : likeness.Deepers deeper deeper')
    (hsettings : likeness.Settings setting setting') :
    likeness.Callers (Closure.callWith deeper setting) (Closure.callWith deeper' setting') := by
  rintro _ _ values values' ⟨identity, parameter, record, hbody⟩ hvalues
  unfold Closure.callWith
  cases hvalues with
  | nil => exact Alike.of_fail _ _
  | cons hfirst hrest =>
    cases hrest with
    | cons => exact Alike.of_fail _ _
    | nil =>
      rename_i value value'
      have hscopes : likeness.Scopes [(parameter, value)] [(parameter, value')] := by
        intro name
        by_cases hname : parameter = name
        · simpa [Entries.get?, hname] using hfirst
        · simp [Entries.get?, hname]
      have hnodes := likeness.nodes_of_bodies hbody
      exact (evaluateIn_alike hdeepers hsettings hscopes _ hnodes record).of_bind
        fun _ _ hresults => Alike.of_pure (normalized_alike hresults)

theorem deeperAt_alike (hsettings : likeness.Settings setting setting') (depth : Nat) :
    likeness.Deepers (deeperAt setting depth) (deeperAt setting' depth) := by
  induction depth with
  | zero =>
    exact ⟨fun _ _ _ _ => Alike.of_fail _ _, fun _ _ _ _ _ _ => Alike.of_fail _ _⟩
  | succ depth ih =>
    exact ⟨fun node _ hnodes => evaluateWith_alike ih hsettings node hnodes,
      callWith_alike ih hsettings⟩

/-- Like expressions come out alike in like settings. -/
theorem evaluate_alike (hsettings : likeness.Settings setting setting') {node node' : Node}
    (hnodes : likeness.Nodes node node') :
    likeness.Arguments (node.evaluate setting) (node'.evaluate setting') :=
  evaluateWith_alike (deeperAt_alike hsettings nestingLimit) hsettings node hnodes

/-- Calling like closures with like values comes out alike in like settings. -/
theorem call_alike (hsettings : likeness.Settings setting setting') :
    likeness.Callers (Closure.call setting) (Closure.call setting') :=
  (deeperAt_alike hsettings nestingLimit).call

end Likeness

end Patchwork
