import Patchwork.Evaluation
import Patchwork.Proofs.Provenance.Procedures

/-!
# Expressions proceed soundly

An expression with sound groups proceeds soundly and gives a sound value, if the groups
of the environment are sound.  Without a scope and within one this is by recursion on the
expression, and by induction on the depth it carries over to table entries and closures.
-/

namespace Patchwork

open Eval

/-! ## Operators give no groups -/

/-- A computation that can give no value with groups. -/
def Ungrouped (outcome : Except Fault Value) : Prop :=
  ∀ value, outcome = .ok value → value.groups = []

namespace Ungrouped

theorem of_ok {value : Value} (hnone : value.groups = []) : Ungrouped (.ok value) := by
  intro other hother
  cases hother
  exact hnone

theorem of_error (fault : Fault) : Ungrouped (.error fault) :=
  fun _ hvalue => nomatch hvalue

theorem of_bind {Result : Type} {first : Except Fault Result}
    {next : Result → Except Fault Value} (hnext : ∀ result, Ungrouped (next result)) :
    Ungrouped (first >>= next) := by
  intro value hvalue
  obtain ⟨given, -, hgiven⟩ := exists_of_bind_eq_ok hvalue
  exact hnext given value hgiven

theorem of_map {Result : Type} {first : Except Fault Result} {make : Result → Value}
    (hmake : ∀ result, (make result).groups = []) : Ungrouped (first.map make) := by
  cases first with
  | error fault => exact of_error fault
  | ok result => exact of_ok (hmake result)

end Ungrouped

namespace BinaryOperator

variable (labels : Labels)

theorem ungrouped_arithmetic (onIntegers : Int → Int → Int)
    (onFloats : Binary64 → Binary64 → Binary64) (left right : Value) :
    Ungrouped (arithmetic labels onIntegers onFloats left right) := by
  unfold arithmetic
  split
  · exact Ungrouped.of_bind fun _ => Ungrouped.of_bind fun _ => Ungrouped.of_ok rfl
  · exact Ungrouped.of_bind fun _ => Ungrouped.of_bind fun _ => Ungrouped.of_ok rfl

theorem ungrouped_add (left right : Value) : Ungrouped (add labels left right) := by
  unfold add
  split
  · exact Ungrouped.of_ok rfl
  · exact Ungrouped.of_ok rfl
  · exact ungrouped_arithmetic labels _ _ left right

theorem ungrouped_divide (left right : Value) : Ungrouped (divide labels left right) := by
  unfold divide
  split
  · refine Ungrouped.of_bind fun _ => Ungrouped.of_bind fun _ => ?_
    split
    · exact Ungrouped.of_error _
    split
    · exact Ungrouped.of_ok rfl
    split
    · exact Ungrouped.of_ok rfl
    · exact Ungrouped.of_error _
  · refine Ungrouped.of_bind fun _ => ?_
    split
    · exact Ungrouped.of_error _
    · exact Ungrouped.of_bind fun _ => Ungrouped.of_ok rfl

theorem ungrouped_remainder (left right : Value) : Ungrouped (remainder labels left right) := by
  unfold remainder
  split
  · refine Ungrouped.of_bind fun _ => Ungrouped.of_bind fun _ => ?_
    split
    · exact Ungrouped.of_error _
    · exact Ungrouped.of_ok rfl
  · refine Ungrouped.of_bind fun _ => ?_
    split
    · exact Ungrouped.of_error _
    refine Ungrouped.of_bind fun _ => ?_
    split
    · exact Ungrouped.of_error _
    split
    · exact Ungrouped.of_ok rfl
    · exact Ungrouped.of_error _

theorem ungrouped_compare (holds : Binary64 → Binary64 → Bool) (left right : Value) :
    Ungrouped (compare labels holds left right) :=
  Ungrouped.of_bind fun _ => Ungrouped.of_bind fun _ => Ungrouped.of_ok rfl

theorem ungrouped_result (operator : BinaryOperator) (left right : Value) :
    Ungrouped (operator.result labels left right) := by
  cases operator with
  | plus => exact ungrouped_add labels left right
  | minus => exact ungrouped_arithmetic labels _ _ left right
  | times => exact ungrouped_arithmetic labels _ _ left right
  | divided => exact ungrouped_divide labels left right
  | modulo => exact ungrouped_remainder labels left right
  | equal => exact Ungrouped.of_map fun _ => rfl
  | notEqual => exact Ungrouped.of_map fun _ => rfl
  | greater => exact ungrouped_compare labels _ left right
  | less => exact ungrouped_compare labels _ left right
  | atLeast => exact ungrouped_compare labels _ left right
  | atMost => exact ungrouped_compare labels _ left right
  | or | and =>
    refine Ungrouped.of_bind fun flag => ?_
    split
    · exact Ungrouped.of_ok rfl
    · exact Ungrouped.of_bind fun _ => Ungrouped.of_ok rfl

theorem ungrouped_apply (operator : BinaryOperator) (left right : Value) :
    Ungrouped (operator.apply labels left right) := by
  have hresult := ungrouped_result labels operator left right
  unfold apply
  split
  · exact Ungrouped.of_error _
  · exact hresult

end BinaryOperator

theorem UnaryOperator.ungrouped_apply (labels : Labels) (operator : UnaryOperator)
    (operand : Value) : Ungrouped (operator.apply labels operand) := by
  cases operator with
  | not => exact Ungrouped.of_bind fun _ => Ungrouped.of_ok rfl
  | negative =>
    unfold UnaryOperator.apply
    dsimp only
    split
    · exact Ungrouped.of_ok rfl
    · exact Ungrouped.of_bind fun _ => Ungrouped.of_ok rfl

/-! ## Steps of evaluation -/

/-- What evaluation reads has sound groups only, and the loaded mods are in the pool. -/
structure Setting.Sound (setting : Setting) (world : World) : Prop where
  loaded : setting.repository.Loaded world.pool
  environment : AllSound setting.repository world setting.environment.groups

theorem Setting.Sound.later {setting : Setting} {origin last : World}
    (hsetting : setting.Sound origin) (honward : origin.Onward last) : setting.Sound last where
  loaded := hsetting.loaded.mono honward.retains
  environment := hsetting.environment.mono honward

/-- The steps that lead one level deeper proceed soundly. -/
structure Eval.SoundDeeper (repository : Repository) (origin : World) (deeper : Deeper) :
    Prop where
  entry : ∀ operands last (node : Node) record, origin.Onward last →
    AllSound repository last node.groups →
    (deeper.entry node record).Proceeds repository operands last (Value.Sound repository)
  call : SoundCaller repository origin deeper.call

theorem Eval.SoundDeeper.later {repository : Repository} {origin last : World} {deeper : Deeper}
    (hdeeper : SoundDeeper repository origin deeper) (honward : origin.Onward last) :
    SoundDeeper repository last deeper where
  entry operands other node record hother :=
    hdeeper.entry operands other node record (honward.trans hother)
  call := hdeeper.call.later honward

section Steps

variable {repository : Repository} {operands : Operands} {origin : World} {left right : Eval Value}

theorem proceeds_ungrouped {compute : Labels → Except Fault Value}
    (hnone : ∀ labels, Ungrouped (compute labels)) :
    (do mark (← labelled compute) : Eval Value).Proceeds repository operands origin
      (Value.Sound repository) := by
  have hcompute : (labelled compute).Proceeds repository operands origin
      (Value.Sound repository) :=
    proceeds_labelled fun world value labels _ hvalue =>
      Value.Sound.of_no_groups repository world (hnone labels value hvalue)
  exact hcompute.bind fun value _ _ hvalue => proceeds_mark hvalue

theorem proceeds_logical (operator : BinaryOperator) (value : Value)
    (hright : right.Proceeds repository operands origin (Value.Sound repository)) :
    (logical operator value right).Proceeds repository operands origin
      (Value.Sound repository) := by
  refine (proceeds_plain _).andThen fun flag => ?_
  cases operator.decided? flag with
  | some decided => exact proceeds_value rfl
  | none =>
    exact hright.andThen fun _ => (proceeds_plain _).andThen fun _ => proceeds_value rfl

theorem proceeds_combine (operator : BinaryOperator) (value : Value)
    (hright : right.Proceeds repository operands origin (Value.Sound repository)) :
    (combine operator value right).Proceeds repository operands origin
      (Value.Sound repository) := by
  unfold combine
  split
  · exact proceeds_logical operator value hright
  · exact hright.andThen fun other => proceeds_ungrouped fun labels =>
      BinaryOperator.ungrouped_apply labels operator value other

theorem proceeds_combineOne (operator : UnaryOperator) (operand : Value) :
    (combineOne operator operand).Proceeds repository operands origin (Value.Sound repository) :=
  proceeds_ungrouped fun labels => UnaryOperator.ungrouped_apply labels operator operand

theorem proceeds_close (parameter : String) {body : Node}
    (hbody : AllSound repository origin body.groups) (record : Option RecordRef) :
    (close parameter body record).Proceeds repository operands origin
      (Value.Sound repository) :=
  proceeds_nextMark.bind fun _ _ honward _ => proceeds_pure fun _ hlast =>
    hbody.mono (honward.trans hlast)

theorem proceeds_elementAt {items : List Value}
    (hitems : ∀ item ∈ items, item.Sound repository origin) (position : Int) :
    (elementAt items position).Proceeds repository operands origin (Value.Sound repository) := by
  unfold elementAt
  split
  · rename_i element helement
    have hmem : element ∈ items := by
      split at helement
      · cases helement
      · exact List.mem_of_getElem? helement
    exact proceeds_pure fun _ honward => (hitems element hmem).mono honward
  · exact proceeds_fail _

end Steps

variable {setting : Setting} {operands : Operands} {origin : World} {deeper : Deeper}
  (hsetting : setting.Sound origin) (hdeeper : SoundDeeper setting.repository origin deeper)

include hdeeper in
theorem proceeds_pipeInto {left : Value} (hleft : left.Sound setting.repository origin)
    (procedure : Procedure) {arguments : List Argument}
    (harguments : ∀ argument ∈ arguments, SoundArgument setting.repository origin argument)
    (pairwise : Bool) :
    (pipeInto deeper left procedure arguments pairwise).Proceeds setting.repository operands
      origin (Value.Sound setting.repository) := by
  have hgroup : (labelled (left.expectGroup · "left side of ->")).Proceeds setting.repository
      operands origin fun world group => group.Sound setting.repository world :=
    proceeds_labelled fun world group labels honward hexpect =>
      (hleft.of_expectGroup hexpect).mono honward
  refine hgroup.bind fun group between hbetween hsound => ?_
  have happly : (procedure.apply deeper.call arguments group pairwise).Proceeds
      setting.repository operands between fun _ _ => True :=
    Procedure.proceeds_apply (hdeeper.call.later hbetween)
      (fun argument hargument => (harguments argument hargument).later hbetween) hsound pairwise
  exact happly.bind fun _ _ hlast _ => proceeds_pure fun _ hworld =>
    hleft.mono (hbetween.trans (hlast.trans hworld))

include hsetting hdeeper

theorem proceeds_valueAt {target : Value} (htarget : target.Sound setting.repository origin)
    (position : Value) (record : Option RecordRef) :
    (valueAt deeper setting target position record).Proceeds setting.repository operands origin
      (Value.Sound setting.repository) := by
  unfold valueAt
  cases target with
  | array items =>
    refine (proceeds_plain _).andThen fun index => ?_
    exact proceeds_elementAt (Value.Sound.array_iff.mp htarget) index
  | table table =>
    refine proceeds_labels.andThen fun labels => ?_
    have hentry : (settle (setting.environment.tableEntry table (position.display labels))).Proceeds
        setting.repository operands origin
        fun world node => AllSound setting.repository world node.groups :=
      proceeds_settle fun world node honward hnode =>
        ((hsetting.environment.subset (Environment.groups_of_tableEntry hnode)).mono honward)
    exact hentry.bind fun node between hbetween hnode =>
      hdeeper.entry operands between node record hbetween hnode
  | _ => exact proceeds_labels.andThen fun _ => proceeds_fail _

/-! ## Expressions without a scope -/

omit hsetting hdeeper

mutual

theorem Node.soundArgument_evaluateWith (hsetting : setting.Sound origin)
    (hdeeper : SoundDeeper setting.repository origin deeper) (node : Node)
    (hnode : AllSound setting.repository origin node.groups) :
    SoundArgument setting.repository origin (node.evaluateWith deeper setting) := by
  intro operands record
  cases node with
  | literal value => exact proceeds_pure fun _ honward => hnode.mono honward
  | parameter name => exact proceeds_fail _
  | unary operator operand =>
    exact (Node.soundArgument_evaluateWith hsetting hdeeper operand hnode operands record).andThen
      fun value => proceeds_combineOne operator value
  | binary operator left right =>
    refine (Node.soundArgument_evaluateWith hsetting hdeeper left hnode.left operands
      record).andThen fun value => ?_
    exact proceeds_combine operator value
      (Node.soundArgument_evaluateWith hsetting hdeeper right hnode.right operands record)
  | call function arguments =>
    exact Function.proceeds_apply (soundArgument_argumentsWith hsetting hdeeper arguments hnode)
      hsetting.loaded function record
  | test predicate arguments =>
    exact (Predicate.proceeds_apply (soundArgument_argumentsWith hsetting hdeeper arguments hnode)
      predicate record).andThen fun _ => proceeds_value rfl
  | array elements =>
    exact (proceeds_elementsWith hsetting hdeeper elements hnode operands record).bind
      fun items _ _ hitems => proceeds_pure fun _ honward =>
        (Value.Sound.array_iff.mpr hitems).mono honward
  | tableName name =>
    exact proceeds_pure fun _ honward =>
      (hsetting.environment.subset (Environment.groups_tableOrDefinition name)).mono honward
  | index target position =>
    refine (Node.soundArgument_evaluateWith hsetting hdeeper target hnode.left operands record).bind
      fun value between hbetween hvalue => ?_
    refine ((Node.soundArgument_evaluateWith hsetting hdeeper position hnode.right operands
      record).later hbetween).bind fun key last hlast _ => ?_
    exact proceeds_valueAt (hsetting.later (hbetween.trans hlast))
      (hdeeper.later (hbetween.trans hlast)) (hvalue.mono hlast) key record
  | group group => exact proceeds_pure fun _ honward => hnode.mono honward
  | procedure procedure arguments pairwise => exact proceeds_fail _
  | pipe left procedure arguments pairwise =>
    refine (Node.soundArgument_evaluateWith hsetting hdeeper left hnode.left operands record).bind
      fun value between hbetween hvalue => ?_
    have harguments := soundArgument_argumentsWith hsetting hdeeper arguments hnode.right
    exact proceeds_pipeInto (hdeeper.later hbetween) hvalue procedure
      (fun argument hargument => (harguments argument hargument).later hbetween) pairwise
  | lambda parameter body =>
    have hbody : AllSound setting.repository origin body.groups := hnode
    exact proceeds_close parameter hbody record
  | command command arguments =>
    exact (Command.proceeds_apply (soundArgument_argumentsWith hsetting hdeeper arguments hnode)
      command record).andThen fun _ => proceeds_value rfl

theorem soundArgument_argumentsWith (hsetting : setting.Sound origin)
    (hdeeper : SoundDeeper setting.repository origin deeper) (nodes : List Node)
    (hnodes : AllSound setting.repository origin (nodeGroups nodes)) :
    ∀ argument ∈ argumentsWith deeper setting nodes,
      SoundArgument setting.repository origin argument := by
  intro argument hargument
  cases nodes with
  | nil => cases hargument
  | cons node rest =>
    rcases List.mem_cons.mp hargument with rfl | hrest
    · exact Node.soundArgument_evaluateWith hsetting hdeeper node hnodes.left
    · exact soundArgument_argumentsWith hsetting hdeeper rest hnodes.right argument hrest

theorem proceeds_elementsWith (hsetting : setting.Sound origin)
    (hdeeper : SoundDeeper setting.repository origin deeper) (nodes : List Node)
    (hnodes : AllSound setting.repository origin (nodeGroups nodes)) (operands : Operands)
    (record : Option RecordRef) :
    (elementsWith deeper setting nodes record).Proceeds setting.repository operands origin
      fun world values => ∀ value ∈ values, value.Sound setting.repository world := by
  cases nodes with
  | nil => exact proceeds_pure fun _ _ _ hvalue => nomatch hvalue
  | cons node rest =>
    exact (Node.soundArgument_evaluateWith hsetting hdeeper node hnodes.left operands record).cons
      (proceeds_elementsWith hsetting hdeeper rest hnodes.right operands record)

end

/-! ## Expressions in a scope -/

/-- All values of a scope are sound. -/
def Scope.Sound (repository : Repository) (world : World) (scope : Scope) : Prop :=
  ∀ entry ∈ scope, entry.2.Sound repository world

theorem Scope.Sound.value {scope : Scope} (hscope : scope.Sound setting.repository origin)
    (name : String) :
    (scope.value name).Proceeds setting.repository operands origin
      (Value.Sound setting.repository) := by
  unfold Scope.value
  cases hvalue : scope.get? name with
  | none => exact proceeds_fail _
  | some value =>
    obtain ⟨here, hmem⟩ := Entries.mem_of_get? hvalue
    exact proceeds_pure fun _ honward => (hscope (here, value) hmem).mono honward

variable {scope : Scope}

mutual

theorem Node.soundArgument_evaluateIn (hsetting : setting.Sound origin)
    (hdeeper : SoundDeeper setting.repository origin deeper)
    (hscope : scope.Sound setting.repository origin) (node : Node)
    (hnode : AllSound setting.repository origin node.groups) :
    SoundArgument setting.repository origin (node.evaluateIn deeper setting scope) := by
  intro operands record
  have hwithout : (insideLambda node (node.evaluateWith deeper setting record)).Proceeds
      setting.repository operands origin (Value.Sound setting.repository) :=
    proceeds_insideLambda node
      (Node.soundArgument_evaluateWith hsetting hdeeper node hnode operands record)
  cases node with
  | parameter name => exact hscope.value name
  | unary operator operand =>
    exact (Node.soundArgument_evaluateIn hsetting hdeeper hscope operand hnode operands
      record).andThen fun value => proceeds_combineOne operator value
  | binary operator left right =>
    refine (Node.soundArgument_evaluateIn hsetting hdeeper hscope left hnode.left operands
      record).andThen fun value => ?_
    exact proceeds_combine operator value
      (Node.soundArgument_evaluateIn hsetting hdeeper hscope right hnode.right operands record)
  | call function arguments =>
    refine (proceeds_valuesIn hsetting hdeeper hscope arguments hnode operands record).bind
      fun values between hbetween hvalues => ?_
    refine Function.proceeds_apply ?_ (hsetting.later hbetween).loaded function record
    intro argument hargument operands record
    obtain ⟨value, hvalue, rfl⟩ := List.mem_map.mp hargument
    exact proceeds_pure fun _ honward => (hvalues value hvalue).mono honward
  | array elements =>
    exact (proceeds_elementsIn hsetting hdeeper hscope elements hnode operands record).bind
      fun items _ _ hitems => proceeds_pure fun _ honward =>
        (Value.Sound.array_iff.mpr hitems).mono honward
  | _ => exact hwithout

theorem proceeds_elementsIn (hsetting : setting.Sound origin)
    (hdeeper : SoundDeeper setting.repository origin deeper)
    (hscope : scope.Sound setting.repository origin) (nodes : List Node)
    (hnodes : AllSound setting.repository origin (nodeGroups nodes)) (operands : Operands)
    (record : Option RecordRef) :
    (elementsIn deeper setting scope nodes record).Proceeds setting.repository operands origin
      fun world values => ∀ value ∈ values, value.Sound setting.repository world := by
  cases nodes with
  | nil => exact proceeds_pure fun _ _ _ hvalue => nomatch hvalue
  | cons node rest =>
    have hrest := proceeds_elementsIn hsetting hdeeper hscope rest hnodes.right operands record
    have hnode := Node.soundArgument_evaluateIn hsetting hdeeper hscope node hnodes.left operands
      record
    cases node with
    | lambda parameter body =>
      have hbody : AllSound setting.repository origin body.groups := hnodes.left
      exact (proceeds_close parameter hbody record).cons hrest
    | _ => exact hnode.cons hrest

theorem proceeds_valuesIn (hsetting : setting.Sound origin)
    (hdeeper : SoundDeeper setting.repository origin deeper)
    (hscope : scope.Sound setting.repository origin) (nodes : List Node)
    (hnodes : AllSound setting.repository origin (nodeGroups nodes)) (operands : Operands)
    (record : Option RecordRef) :
    (valuesIn deeper setting scope nodes record).Proceeds setting.repository operands origin
      fun world values => ∀ value ∈ values, value.Sound setting.repository world := by
  cases nodes with
  | nil => exact proceeds_pure fun _ _ _ hvalue => nomatch hvalue
  | cons node rest =>
    exact (Node.soundArgument_evaluateIn hsetting hdeeper hscope node hnodes.left operands
      record).cons (proceeds_valuesIn hsetting hdeeper hscope rest hnodes.right operands record)

end

/-! ## Every depth -/

theorem Value.Sound.normalized {value : Value} (hvalue : value.Sound setting.repository origin) :
    (normalized value).Sound setting.repository origin := by
  cases value with
  | float number => exact Value.Sound.of_no_groups _ _ (Value.groups_ofNumber number)
  | _ => exact hvalue

include hsetting

include hdeeper in
theorem soundCaller_callWith :
    SoundCaller setting.repository origin (Closure.callWith deeper setting) := by
  intro operands last closure values honward hbody hvalues
  match values with
  | [] => exact proceeds_fail _
  | _ :: _ :: _ => exact proceeds_fail _
  | [value] =>
    have hscope : Scope.Sound setting.repository last [(closure.parameter, value)] :=
      List.forall_mem_singleton.mpr (hvalues value (List.mem_singleton_self value))
    refine (Node.soundArgument_evaluateIn (hsetting.later honward) (hdeeper.later honward) hscope
      closure.body hbody operands closure.record).bind fun result _ _ hresult => ?_
    exact proceeds_pure fun _ hlater => hresult.normalized.mono hlater

theorem soundDeeper_deeperAt (depth : Nat) :
    SoundDeeper setting.repository origin (deeperAt setting depth) := by
  induction depth with
  | zero =>
    exact ⟨fun _ _ _ _ _ _ => proceeds_fail _, fun _ _ _ _ _ _ _ => proceeds_fail _⟩
  | succ depth ih =>
    refine ⟨fun operands last node record honward hnode => ?_, soundCaller_callWith hsetting ih⟩
    exact Node.soundArgument_evaluateWith (hsetting.later honward) (ih.later honward) node hnode
      operands record

/-- An expression with sound groups proceeds soundly and gives a sound value. -/
theorem Node.soundArgument_evaluate {node : Node}
    (hnode : AllSound setting.repository origin node.groups) :
    SoundArgument setting.repository origin (node.evaluate setting) :=
  Node.soundArgument_evaluateWith hsetting (soundDeeper_deeperAt hsetting nestingLimit) node hnode

theorem Node.proceeds_holds {node : Node}
    (hnode : AllSound setting.repository origin node.groups) (purpose : String)
    (record : RecordRef) :
    (node.holds setting purpose record).Proceeds setting.repository operands origin
      fun _ _ => True :=
  (Node.soundArgument_evaluate hsetting hnode operands (some record)).andThen fun _ =>
    proceeds_plain _

end Patchwork
