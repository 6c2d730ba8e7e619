import Patchwork.Evaluation
import Patchwork.Proofs.Relocation.Procedures

/-!
# Evaluation after a relocation

Corresponding expressions have corresponding values, at every depth: first if
the steps that lead one level deeper correspond, and then for each number of
levels.
-/

namespace Patchwork

open Agree Eval

variable {relocation : Relocation}

/-- Steps that lead one level deeper and do corresponding things. -/
structure Relocation.Deepers (relocation : Relocation) (deeper deeper' : Deeper) : Prop where
  entry : ∀ node node', relocation.Nodes node node' →
    relocation.Arguments (deeper.entry node) (deeper'.entry node')
  call : relocation.Callers deeper.call deeper'.call

variable {deeper deeper' : Deeper} {setting setting' : Setting}

/-! ## Operators, closures and indexes -/

theorem logical_relocate (operator : BinaryOperator) {left left' : Value}
    (hleft : relocation.Values left left') {right right' : Eval Value}
    (hright : Computations relocation.Worlds relocation.Values right right') :
    Computations relocation.Worlds relocation.Values (logical operator left right)
      (logical operator left' right') := by
  refine hleft.toBoolean.of_bind fun flag flag' hflag => ?_
  subst hflag
  cases operator.decided? flag with
  | some decided => exact Computations.of_pure (Relocation.values_boolean decided)
  | none =>
    refine hright.of_bind fun value value' hvalues => ?_
    refine hvalues.toBoolean.of_bind fun second second' hsecond => ?_
    subst hsecond
    exact Computations.of_pure (Relocation.values_boolean second)

theorem combine_relocate (operator : BinaryOperator) {left left' : Value}
    (hleft : relocation.Values left left') {right right' : Eval Value}
    (hright : Computations relocation.Worlds relocation.Values right right') :
    Computations relocation.Worlds relocation.Values (combine operator left right)
      (combine operator left' right') := by
  unfold combine
  split
  · exact logical_relocate operator hleft hright
  · refine hright.of_bind fun value value' hvalues => ?_
    refine (labelled_relocate fun labels labels' hlabels => ?_).of_bind fun _ _ => mark_relocate
    rw [hleft.1, hvalues.1]
    exact BinaryOperator.apply_relocate hlabels operator left value

theorem combineOne_relocate (operator : UnaryOperator) {operand operand' : Value}
    (hoperand : relocation.Values operand operand') :
    Computations relocation.Worlds relocation.Values (combineOne operator operand)
      (combineOne operator operand') := by
  refine (labelled_relocate fun labels labels' hlabels => ?_).of_bind fun _ _ => mark_relocate
  rw [hoperand.1]
  exact UnaryOperator.apply_relocate hlabels operator operand

theorem close_relocate (parameter : String) {body body' : Node}
    (hbody : relocation.Nodes body body') {current current' : Option RecordRef}
    (hcurrents : relocation.Currents current current') :
    Computations relocation.Worlds relocation.Values (close parameter body current)
      (close parameter body' current') := by
  refine nextMark_relocate.of_bind fun mark mark' hmark => Computations.of_pure ?_
  rw [hmark, hbody.1, hcurrents.1]
  exact ⟨rfl, hbody.2, hcurrents.2⟩

theorem elementAt_relocate {items items' : List Value}
    (hitems : List.Forall₂ relocation.Values items items') (position : Int) :
    Computations relocation.Worlds relocation.Values (elementAt items position)
      (elementAt items' position) := by
  obtain ⟨rfl, hfree⟩ := forall₂_eq_map_iff.mp hitems
  have hfound : (if position < 0 then none
        else (items[position.toNat]?).map (Value.relocate relocation)) =
      (if position < 0 then none else items[position.toNat]?).map
        (Value.relocate relocation) := by
    split <;> rfl
  unfold elementAt
  rw [List.length_map, List.getElem?_map, hfound]
  cases helement : if position < 0 then none else items[position.toNat]? with
  | none => exact Computations.of_throw _
  | some element =>
    refine Computations.of_pure ⟨rfl, hfree element ?_⟩
    split at helement
    · cases helement
    · exact List.mem_of_getElem? helement

theorem valueAt_relocate (hdeepers : relocation.Deepers deeper deeper')
    (hsettings : relocation.Settings setting setting') {target target' position position' : Value}
    (htarget : relocation.Values target target')
    (hposition : relocation.Values position position') :
    relocation.Arguments (valueAt deeper setting target position)
      (valueAt deeper' setting' target' position') := by
  intro current current' hcurrents
  have hsummary : ∀ labels labels' : Labels, (∀ ref, labels' (relocation.ref ref) = labels ref) →
      target'.summary labels' = target.summary labels := fun _ _ => htarget.summary
  obtain ⟨rfl, hfree⟩ := htarget
  cases target with
  | array items =>
    refine hposition.toInteger.of_bind fun index index' hindex => ?_
    subst hindex
    exact elementAt_relocate (Relocation.forall₂_values_iff.mpr ⟨rfl, hfree⟩) index
  | table table =>
    refine labels_relocate.of_bind fun labels labels' hlabels => ?_
    dsimp only
    rw [hposition.display hlabels]
    refine (agree_settle (Environment.tableEntry_relocate hsettings.environments _ _)).of_bind
      fun node node' hnodes => ?_
    exact hdeepers.entry node node' hnodes current current' hcurrents
  | _ =>
    refine labels_relocate.of_bind fun labels labels' hlabels => ?_
    rw [← hsummary labels labels' hlabels]
    exact Computations.of_throw _

theorem pipeInto_relocate (hdeepers : relocation.Deepers deeper deeper') {left left' : Value}
    (hleft : relocation.Values left left') (procedure : Procedure)
    {arguments arguments' : List Argument}
    (harguments : List.Forall₂ relocation.Arguments arguments arguments') (pairwise : Bool) :
    Computations relocation.Worlds relocation.Values
      (pipeInto deeper left procedure arguments pairwise)
      (pipeInto deeper' left' procedure arguments' pairwise) :=
  (hleft.group _).of_bind fun _ _ hgroups =>
    (Procedure.apply_relocate hdeepers.call procedure harguments hgroups pairwise).of_bind
      fun _ _ _ => Computations.of_pure hleft

/-! ## Expressions without a scope -/

mutual

theorem Node.evaluateWith_relocate (hdeepers : relocation.Deepers deeper deeper')
    (hsettings : relocation.Settings setting setting') (node : Node)
    (hfree : node.Free relocation) :
    relocation.Arguments (node.evaluateWith deeper setting)
      ((node.relocate relocation).evaluateWith deeper' setting') := by
  intro current current' hcurrents
  cases node with
  | literal value => exact Computations.of_pure ⟨rfl, hfree⟩
  | parameter name => exact Computations.of_throw _
  | unary operator operand =>
    exact (Node.evaluateWith_relocate hdeepers hsettings operand hfree current current'
      hcurrents).of_bind fun _ _ => combineOne_relocate operator
  | binary operator left right =>
    refine (Node.evaluateWith_relocate hdeepers hsettings left hfree.1 current current'
      hcurrents).of_bind fun _ _ hleft => ?_
    exact combine_relocate operator hleft
      (Node.evaluateWith_relocate hdeepers hsettings right hfree.2 current current' hcurrents)
  | call function arguments =>
    exact Function.apply_relocate function
      (argumentsWith_relocate hdeepers hsettings arguments hfree) hcurrents
  | test predicate arguments =>
    refine (Predicate.apply_relocate predicate
      (argumentsWith_relocate hdeepers hsettings arguments hfree) hcurrents).of_bind
      fun verdict verdict' hverdict => ?_
    subst hverdict
    exact Computations.of_pure (Relocation.values_boolean verdict)
  | array elements =>
    exact (elementsWith_relocate hdeepers hsettings elements hfree hcurrents).of_bind
      fun _ _ hitems => Computations.of_pure (Relocation.values_array hitems)
  | tableName name =>
    exact Computations.of_pure
      (Environment.tableOrDefinition_relocate hsettings.environments name)
  | index target position =>
    refine (Node.evaluateWith_relocate hdeepers hsettings target hfree.1 current current'
      hcurrents).of_bind fun _ _ htarget => ?_
    refine (Node.evaluateWith_relocate hdeepers hsettings position hfree.2 current current'
      hcurrents).of_bind fun _ _ hposition => ?_
    exact valueAt_relocate hdeepers hsettings htarget hposition current current' hcurrents
  | group group => exact Computations.of_pure ⟨rfl, hfree⟩
  | procedure procedure arguments pairwise => exact Computations.of_throw _
  | pipe left procedure arguments pairwise =>
    refine (Node.evaluateWith_relocate hdeepers hsettings left hfree.1 current current'
      hcurrents).of_bind fun _ _ hleft => ?_
    exact pipeInto_relocate hdeepers hleft procedure
      (argumentsWith_relocate hdeepers hsettings arguments hfree.2) pairwise
  | lambda parameter body =>
    have hbody : relocation.Nodes body (body.relocate relocation) := ⟨rfl, hfree⟩
    exact close_relocate parameter hbody hcurrents
  | command command arguments =>
    have happly := Command.apply_relocate setting.repository command
      (argumentsWith_relocate hdeepers hsettings arguments hfree) hcurrents
    rw [← hsettings.repository] at happly
    exact happly.of_bind fun _ _ _ => Computations.of_pure (Relocation.values_boolean true)

theorem argumentsWith_relocate (hdeepers : relocation.Deepers deeper deeper')
    (hsettings : relocation.Settings setting setting') (nodes : List Node)
    (hfree : freeNodes relocation nodes) :
    List.Forall₂ relocation.Arguments (argumentsWith deeper setting nodes)
      (argumentsWith deeper' setting' (relocateNodes relocation nodes)) := by
  cases nodes with
  | nil => exact List.Forall₂.nil
  | cons node rest =>
    exact List.Forall₂.cons (Node.evaluateWith_relocate hdeepers hsettings node hfree.1)
      (argumentsWith_relocate hdeepers hsettings rest hfree.2)

theorem elementsWith_relocate (hdeepers : relocation.Deepers deeper deeper')
    (hsettings : relocation.Settings setting setting') (nodes : List Node)
    (hfree : freeNodes relocation nodes) {current current' : Option RecordRef}
    (hcurrents : relocation.Currents current current') :
    Computations relocation.Worlds (List.Forall₂ relocation.Values)
      (elementsWith deeper setting nodes current)
      (elementsWith deeper' setting' (relocateNodes relocation nodes) current') := by
  cases nodes with
  | nil => exact Computations.of_pure List.Forall₂.nil
  | cons node rest =>
    refine (Node.evaluateWith_relocate hdeepers hsettings node hfree.1 current current'
      hcurrents).of_bind fun _ _ hfirst => ?_
    exact (elementsWith_relocate hdeepers hsettings rest hfree.2 hcurrents).of_bind
      fun _ _ hrest => Computations.of_pure (List.Forall₂.cons hfirst hrest)

end

/-! ## Expressions in a scope -/

/-- Parameters with corresponding values. -/
def Relocation.Scopes (relocation : Relocation) (scope scope' : Scope) : Prop :=
  scope' = scope.convert id (Value.relocate relocation) ∧
    ∀ entry ∈ scope, entry.2.Free relocation

theorem insideLambda_relocate {Result Result' : Type} {related : Result → Result' → Prop}
    {node node' : Node} (hkind : node'.kindName = node.kindName) {evaluation : Eval Result}
    {evaluation' : Eval Result'}
    (hevaluation : Computations relocation.Worlds related evaluation evaluation') :
    Computations relocation.Worlds related (insideLambda node evaluation)
      (insideLambda node' evaluation') := by
  refine Computations.of_tryCatch hevaluation fun fault => ?_
  cases fault with
  | evaluation cause =>
    rw [hkind]
    exact Computations.of_throw _
  | _ => exact Computations.of_throw _

variable {scope scope' : Scope}

theorem Scope.value_relocate (hscopes : relocation.Scopes scope scope') (name : String) :
    Computations relocation.Worlds relocation.Values (scope.value name) (scope'.value name) := by
  obtain ⟨rfl, hfree⟩ := hscopes
  unfold Scope.value
  rw [Entries.get?_convert_id]
  cases hvalue : scope.get? name with
  | none => exact Computations.of_throw _
  | some value =>
    obtain ⟨here, hmem⟩ := Entries.mem_of_get? hvalue
    exact Computations.of_pure ⟨rfl, hfree (here, value) hmem⟩

mutual

theorem Node.evaluateIn_relocate (hdeepers : relocation.Deepers deeper deeper')
    (hsettings : relocation.Settings setting setting')
    (hscopes : relocation.Scopes scope scope') (node : Node) (hfree : node.Free relocation) :
    relocation.Arguments (node.evaluateIn deeper setting scope)
      ((node.relocate relocation).evaluateIn deeper' setting' scope') := by
  intro current current' hcurrents
  have hwithout : Computations relocation.Worlds relocation.Values
      (insideLambda node (node.evaluateWith deeper setting current))
      (insideLambda (node.relocate relocation)
        ((node.relocate relocation).evaluateWith deeper' setting' current')) :=
    insideLambda_relocate (Node.kindName_relocate node)
      (Node.evaluateWith_relocate hdeepers hsettings node hfree current current' hcurrents)
  cases node with
  | parameter name => exact Scope.value_relocate hscopes name
  | unary operator operand =>
    exact (Node.evaluateIn_relocate hdeepers hsettings hscopes operand hfree current current'
      hcurrents).of_bind fun _ _ => combineOne_relocate operator
  | binary operator left right =>
    refine (Node.evaluateIn_relocate hdeepers hsettings hscopes left hfree.1 current current'
      hcurrents).of_bind fun _ _ hleft => ?_
    exact combine_relocate operator hleft
      (Node.evaluateIn_relocate hdeepers hsettings hscopes right hfree.2 current current'
        hcurrents)
  | call function arguments =>
    refine (valuesIn_relocate hdeepers hsettings hscopes arguments hfree hcurrents).of_bind
      fun values values' hvalues => Function.apply_relocate function ?_ hcurrents
    rw [List.forall₂_map_left_iff, List.forall₂_map_right_iff]
    exact hvalues.imp fun _ _ hvalue _ _ _ => Computations.of_pure hvalue
  | array elements =>
    exact (elementsIn_relocate hdeepers hsettings hscopes elements hfree hcurrents).of_bind
      fun _ _ hitems => Computations.of_pure (Relocation.values_array hitems)
  | _ => exact hwithout

theorem elementsIn_relocate (hdeepers : relocation.Deepers deeper deeper')
    (hsettings : relocation.Settings setting setting')
    (hscopes : relocation.Scopes scope scope') (nodes : List Node)
    (hfree : freeNodes relocation nodes) {current current' : Option RecordRef}
    (hcurrents : relocation.Currents current current') :
    Computations relocation.Worlds (List.Forall₂ relocation.Values)
      (elementsIn deeper setting scope nodes current)
      (elementsIn deeper' setting' scope' (relocateNodes relocation nodes) current') := by
  cases nodes with
  | nil => exact Computations.of_pure List.Forall₂.nil
  | cons node rest =>
    have hevaluated := fun (first first' : Eval Value)
        (hfirst : Computations relocation.Worlds relocation.Values first first') =>
      hfirst.of_bind fun value value' hvalue =>
        (elementsIn_relocate hdeepers hsettings hscopes rest hfree.2 hcurrents).of_bind
          fun _ _ hrest => Computations.of_pure (List.Forall₂.cons hvalue hrest)
    have hnode := Node.evaluateIn_relocate hdeepers hsettings hscopes node hfree.1 current
      current' hcurrents
    cases node with
    | lambda parameter body =>
      have hbody : relocation.Nodes body (body.relocate relocation) := ⟨rfl, hfree.1⟩
      exact hevaluated _ _ (close_relocate parameter hbody hcurrents)
    | _ => exact hevaluated _ _ hnode

theorem valuesIn_relocate (hdeepers : relocation.Deepers deeper deeper')
    (hsettings : relocation.Settings setting setting')
    (hscopes : relocation.Scopes scope scope') (nodes : List Node)
    (hfree : freeNodes relocation nodes) {current current' : Option RecordRef}
    (hcurrents : relocation.Currents current current') :
    Computations relocation.Worlds (List.Forall₂ relocation.Values)
      (valuesIn deeper setting scope nodes current)
      (valuesIn deeper' setting' scope' (relocateNodes relocation nodes) current') := by
  cases nodes with
  | nil => exact Computations.of_pure List.Forall₂.nil
  | cons node rest =>
    refine (Node.evaluateIn_relocate hdeepers hsettings hscopes node hfree.1 current current'
      hcurrents).of_bind fun _ _ hfirst => ?_
    exact (valuesIn_relocate hdeepers hsettings hscopes rest hfree.2 hcurrents).of_bind
      fun _ _ hrest => Computations.of_pure (List.Forall₂.cons hfirst hrest)

end

/-! ## Every depth -/

theorem normalized_relocate {value value' : Value} (hvalues : relocation.Values value value') :
    relocation.Values (normalized value) (normalized value') := by
  obtain ⟨rfl, hfree⟩ := hvalues
  cases value with
  | float number => exact Value.ofNumber_relocate number
  | _ => exact ⟨rfl, hfree⟩

theorem Closure.callWith_relocate (hdeepers : relocation.Deepers deeper deeper')
    (hsettings : relocation.Settings setting setting') :
    relocation.Callers (Closure.callWith deeper setting) (Closure.callWith deeper' setting') := by
  intro closure closure' arguments arguments' hclosures harguments
  unfold Closure.callWith
  rw [hclosures.parameter]
  cases harguments with
  | nil => exact Computations.of_throw _
  | cons hfirst hrest =>
    cases hrest with
    | cons hsecond hothers =>
      dsimp only [List.length_cons]
      rw [hothers.length_eq]
      exact Computations.of_throw _
    | nil =>
      rename_i value value'
      have hscopes : relocation.Scopes [(closure.parameter, value)]
          [(closure.parameter, value')] := by
        refine ⟨?_, fun entry hentry => ?_⟩
        · rw [hfirst.1]
          rfl
        · rw [List.mem_singleton.mp hentry]
          exact hfirst.2
      have hbody := Node.evaluateIn_relocate hdeepers hsettings hscopes closure.body
        hclosures.body.2 closure.record closure'.record hclosures.record
      rw [← hclosures.body.1] at hbody
      exact hbody.of_bind fun _ _ hvalues => Computations.of_pure (normalized_relocate hvalues)

theorem deeperAt_relocate (hsettings : relocation.Settings setting setting') (depth : Nat) :
    relocation.Deepers (deeperAt setting depth) (deeperAt setting' depth) := by
  induction depth with
  | zero =>
    exact ⟨fun _ _ _ _ _ _ => Computations.of_throw _,
      fun _ _ _ _ _ _ => Computations.of_throw _⟩
  | succ depth ih =>
    refine ⟨fun node node' hnodes => ?_, Closure.callWith_relocate ih hsettings⟩
    rw [hnodes.1]
    exact Node.evaluateWith_relocate ih hsettings node hnodes.2

theorem Node.evaluate_relocate (hsettings : relocation.Settings setting setting')
    {node node' : Node} (hnodes : relocation.Nodes node node') :
    relocation.Arguments (node.evaluate setting) (node'.evaluate setting') := by
  rw [hnodes.1]
  exact Node.evaluateWith_relocate (deeperAt_relocate hsettings nestingLimit) hsettings node
    hnodes.2

theorem Node.holds_relocate (hsettings : relocation.Settings setting setting')
    {node node' : Node} (hnodes : relocation.Nodes node node') (purpose : String)
    {ref ref' : RecordRef} (hrefs : relocation.Refs ref ref') :
    Computations relocation.Worlds Eq (node.holds setting purpose ref)
      (node'.holds setting' purpose ref') :=
  (Node.evaluate_relocate hsettings hnodes _ _ (Relocation.currents_some hrefs)).of_bind
    fun _ _ hvalues => hvalues.boolean purpose

end Patchwork
