import Patchwork.Proofs.Horizon.Steps
import Patchwork.Proofs.Provenance.Deeds
import Patchwork.Proofs.Relocation.Calls

/-!
# Calls of built-ins stay within a horizon

What a function gives is within a horizon if its arguments and the current record are: it is
a new number or text, a part of an argument, the value of a field or a group of clones.
A procedure writes texts, numbers and links, so the records it changes stay within a horizon
whatever its arguments give.
-/

namespace Patchwork

open Eval

variable {horizon : Horizon} {holds : Prop} {arguments : List Argument}

theorem stays_requireRecord (name : String) (record : Option RecordRef) :
    (requireRecord name record).Stays horizon fun _ => True := by
  cases record with
  | none => exact stays_fail _
  | some ref => exact stays_pure trivial

/-! ## Functions -/

namespace Function

theorem stays_numbers (purpose : String) (value : Value) :
    (numbers purpose value).Stays horizon fun numbers => value.Within horizon →
      List.Forall₂ horizon.relocation.Numbers numbers numbers := by
  have hitems : (labelled fun labels => value.expectArray labels purpose).Stays horizon
      fun items => value.Within horizon → ∀ item ∈ items, item.Within horizon :=
    stays_labelled fun _ _ _ hitems hvalue => hvalue.items hitems
  have hfloat : ∀ item : Value, (labelled item.toFloat).Stays horizon fun number =>
      item.Within horizon → number.remark horizon.relocation.mark = number :=
    fun _ => stays_labelled fun _ hlabels _ hnumber hitem => hitem.float hlabels hnumber
  refine hitems.bind fun items => ?_
  split
  · exact stays_fail_bind _ _
  · refine (stays_mapM fun item _ => hfloat item).mono fun numbers hnumbers hall hvalue => ?_
    exact List.forall₂_same.mpr fun number hnumber =>
      (hnumbers (hall hvalue) number hnumber).symm

theorem stays_cloneGroup (group : Group) (count : Int) :
    (cloneGroup group count).Stays horizon (Value.Within horizon) := by
  unfold cloneGroup
  split
  · refine stays_requireActive.andThen fun mod => ?_
    refine (stays_onActive (Work.stays_cloneRecord _ count)).bind fun clones => ?_
    refine stays_pure fun hclones => Value.within_group.mpr fun ref href => ?_
    obtain ⟨member, hmember, rfl⟩ := List.mem_map.mp href
    obtain ⟨clone, hclone, rfl⟩ := List.mem_map.mp hmember
    exact hclones clone hclone
  · exact stays_fail _

section

variable (harguments : ∀ argument ∈ arguments, StayingArgument horizon holds argument)

include harguments

theorem stays_result (function : Function) (record : Option RecordRef) :
    (function.result record arguments).Stays horizon fun value =>
      holds → Currently horizon record → value.Within horizon := by
  have hargument := fun position => stays_argument harguments function.name position record
  have hinteger : ∀ number : Int, (pure (.integer number) : Eval Value).Stays horizon fun value =>
      holds → Currently horizon record → value.Within horizon :=
    fun _ => stays_pure fun _ _ => rfl
  unfold result
  cases function with
  | getField =>
    refine (stays_requireRecord _ record).andThen fun ref => ?_
    refine (hargument 0).andThen fun value => (stays_plain _).andThen fun name => ?_
    refine (stays_record ref).bind fun current => ?_
    split
    · exact stays_fail _
    · rename_i hfield
      exact stays_settle fun _ hvalue hcurrent _ _ => (hcurrent.field? hfield).value hvalue
  | toInt =>
    exact (hargument 0).andThen fun value => (stays_plain _).andThen fun number => hinteger number
  | toFloat =>
    refine (hargument 0).bind fun value => ?_
    refine (stays_labelled fun _ hlabels _ hnumber hvalue =>
      Value.Within.float hvalue hlabels hnumber).bind fun number => ?_
    exact stays_pure fun hnumber hvalue hholds hrecord =>
      Value.within_float (hnumber (hvalue hholds hrecord))
  | min =>
    refine (hargument 0).bind fun value => (stays_numbers _ value).bind fun numbers => ?_
    refine stays_pure fun hnumbers hvalue hholds hrecord => ?_
    exact Value.within_ofNumber (least_relocate (hnumbers (hvalue hholds hrecord))).symm
  | max =>
    refine (hargument 0).bind fun value => (stays_numbers _ value).bind fun numbers => ?_
    refine stays_pure fun hnumbers hvalue hholds hrecord => ?_
    exact Value.within_ofNumber (greatest_relocate (hnumbers (hvalue hholds hrecord))).symm
  | arrIndex =>
    refine (hargument 0).andThen fun first => (stays_plain _).andThen fun items => ?_
    refine (hargument 1).andThen fun second => (stays_plain _).andThen fun position => ?_
    dsimp only
    split
    · exact stays_fail_bind _ _
    split
    · exact stays_fail _
    split
    · exact (stays_plain _).andThen fun number => hinteger number
    · exact stays_labels.andThen fun _ => stays_fail _
  | randomFloat =>
    refine (stays_draw Draws.fraction fun draws => ?_).mono fun _ hvalue _ _ => hvalue
    exact Value.within_float (Binary64.remark_ofRatio _ _ _)
  | randomBetweenInts =>
    refine (hargument 0).andThen fun first => (stays_plain _).andThen fun low => ?_
    refine (hargument 1).andThen fun second => (stays_plain _).andThen fun high => ?_
    dsimp only
    split
    · exact stays_fail_bind _ _
    split
    · exact hinteger low
    · refine (stays_draw (fun draws => draws.between low high) fun draws => ?_).mono
        fun _ hvalue _ _ => hvalue
      exact rfl
  | containsExact | containsFolded =>
    refine (hargument 0).andThen fun first => (stays_plain _).andThen fun text => ?_
    refine (hargument 1).andThen fun second => (stays_plain _).andThen fun part => ?_
    exact stays_pure fun _ _ => rfl
  | count =>
    exact (hargument 0).andThen fun value => (stays_plain _).andThen fun group =>
      hinteger group.size
  | clone =>
    refine (hargument 0).andThen fun first => (stays_plain _).andThen fun group => ?_
    refine (hargument 1).andThen fun second => (stays_plain _).andThen fun count => ?_
    exact (stays_cloneGroup group count).mono fun _ hvalue _ _ => hvalue

theorem stays_apply (function : Function) (record : Option RecordRef) :
    (function.apply record arguments).Stays horizon fun value =>
      holds → Currently horizon record → value.Within horizon := by
  refine (stays_result harguments function record).bind fun result => ?_
  exact (stays_mark result).mono fun _ hmarked hresult hholds hrecord =>
    hmarked (hresult hholds hrecord)

end

end Function

/-! ## Predicates -/

namespace Predicate

theorem stays_linkArguments {gives : Value → Prop} {argument : Nat → Eval Value}
    (hargument : ∀ position, (argument position).Stays horizon gives) :
    (linkArguments arguments argument).Stays horizon fun _ => True := by
  refine (hargument 0).andThen fun first => (stays_plain _).andThen fun group => ?_
  split
  · exact stays_pure trivial
  refine (hargument 1).andThen fun second => (stays_plain _).andThen fun category => ?_
  split
  · exact stays_pure trivial
  exact (hargument 2).andThen fun third => (stays_plain _).andThen fun payload =>
    stays_pure trivial

theorem stays_apply (harguments : ∀ argument ∈ arguments, StayingArgument horizon holds argument)
    (predicate : Predicate) (record : Option RecordRef) :
    (predicate.apply record arguments).Stays horizon fun _ => True := by
  have hargument := fun position => stays_argument harguments predicate.name position record
  have hfield : ∀ test : Record → String → Bool,
      (predicate.testField record (fun position => Eval.argument predicate.name arguments position
        record) test).Stays horizon fun _ => True := by
    intro test
    refine (stays_requireRecord _ record).andThen fun ref => (hargument 0).andThen fun value => ?_
    exact (stays_plain _).andThen fun name => (stays_record ref).andThen fun current =>
      stays_pure trivial
  have hlinks : ∀ test : Record → List Record → Option String → Option (List Int) → Bool,
      (predicate.testLinks record arguments (fun position => Eval.argument predicate.name arguments
        position record) test).Stays horizon fun _ => True := by
    intro test
    refine (stays_requireRecord _ record).andThen fun ref => ?_
    exact (stays_linkArguments hargument).andThen fun links => stays_get.andThen fun world =>
      stays_pure trivial
  unfold apply
  cases predicate with
  | always => exact stays_pure trivial
  | never => exact stays_pure trivial
  | fieldExist => exact hfield _
  | fieldIsNotEmpty => exact hfield _
  | fieldIsEmptyOrNotExist => exact hfield _
  | fieldIsEmptyAndExist => exact hfield _
  | isLinkOfAny => exact hlinks _
  | linksAny => exact hlinks _
  | linksAll => exact hlinks _
  | isRemoved =>
    exact (stays_requireRecord _ record).andThen fun ref => (stays_record ref).andThen
      fun current => stays_pure trivial

end Predicate

/-! ## Commands -/

namespace Command

theorem stays_apply (harguments : ∀ argument ∈ arguments, StayingArgument horizon holds argument)
    (repository : Repository) (command : Command) (record : Option RecordRef) :
    (command.apply repository record arguments).Stays horizon fun _ => True := by
  have hargument := fun position => stays_argument harguments command.name position record
  have hjoined : (joinedArguments record arguments).Stays horizon fun _ => True := by
    have htext : ∀ argument ∈ arguments,
        (do return (← argument record).display (← labels) : Eval String).Stays horizon
          fun _ => True → True :=
      fun argument hmem => (harguments argument hmem record).andThen fun value =>
        stays_labels.andThen fun _ => stays_pure id
    exact (stays_mapM htext).andThen fun texts => stays_pure trivial
  unfold apply
  cases command with
  | print | debug => exact hjoined.andThen fun text => stays_note _ _ _
  | inspectRecord =>
    refine (hargument 0).andThen fun first => (stays_plain _).andThen fun group => ?_
    refine (hargument 1).andThen fun second => stays_labels.andThen fun labels => ?_
    refine stays_get.andThen fun world => ?_
    dsimp only
    split
    · exact stays_fail _
    · exact stays_note _ _ _
  | showRecordEvolution =>
    refine (hargument 0).andThen fun first => stays_labels.andThen fun labels => ?_
    refine stays_get.andThen fun world => ?_
    dsimp only
    split
    · exact stays_note _ _ _
    · exact stays_forM fun version _ => stays_note _ _ _
  | stop =>
    exact (stays_note _ _ _).andThen fun _ => stays_modify (fun _ => rfl) fun _ => rfl

end Command

/-! ## Procedures -/

/-- Calls that stay within a horizon and give values within it, if the closure and the values
it is called on are. -/
def StayingCaller (horizon : Horizon) (caller : Caller) : Prop :=
  ∀ closure arguments, (caller closure arguments).Stays horizon fun value =>
    closure.Within horizon → (∀ argument ∈ arguments, argument.Within horizon) →
      value.Within horizon

variable {caller : Caller} {argument : Nat → Eval Value} {gives : Value → Prop}

namespace Procedure

section

variable (hcaller : StayingCaller horizon caller)

include hcaller

theorem stays_transform (closure : Closure) (number : Int) :
    (transform caller closure number).Stays horizon fun _ => True := by
  refine (hcaller closure _).andThen fun value => ?_
  split
  · exact stays_pure trivial
  · exact stays_labels.andThen fun _ => stays_fail _

theorem stays_validate (closure : Closure) (payload : List Int) :
    (validate caller closure payload).Stays horizon fun _ => True :=
  (hcaller closure _).andThen fun _ => stays_plain _

end

section

variable {transformers : List (Int → Eval Int)} {accepts : List Int → Eval Bool}
  (htransformers : ∀ transformer ∈ transformers, ∀ number,
    (transformer number).Stays horizon fun _ => True)

include htransformers

theorem stays_transformPayload (payload : List Int) :
    (transformPayload transformers payload).Stays horizon fun _ => True := by
  induction payload generalizing transformers with
  | nil =>
    rw [transformPayload.eq_1]
    exact stays_pure trivial
  | cons number rest ih =>
    cases transformers with
    | nil => exact stays_pure trivial
    | cons transformer others =>
      rw [transformPayload]
      refine (htransformers transformer List.mem_cons_self number).andThen fun transformed => ?_
      refine (ih fun other hother =>
        htransformers other (List.mem_cons_of_mem _ hother)).andThen fun more => ?_
      exact stays_pure trivial

theorem stays_editLinks (ref : RecordRef)
    (haccepts : ∀ payload, (accepts payload).Stays horizon fun _ => True) (links : List Link) :
    (editLinks ref transformers accepts links).Stays horizon fun _ => True := by
  induction links with
  | nil => exact stays_pure trivial
  | cons link rest ih =>
    rw [editLinks]
    refine (haccepts link.payload).andThen fun accepted => ?_
    split
    · refine (stays_transformPayload htransformers link.payload).andThen fun payload => ?_
      refine (stays_onActive (Work.stays_relink ref _)).andThen fun _ => ?_
      exact ih.andThen fun _ => stays_pure trivial
    · exact ih

theorem stays_editCategory (ref : RecordRef) (category : String)
    (haccepts : ∀ payload, (accepts payload).Stays horizon fun _ => True) :
    (editCategory ref category transformers accepts).Stays horizon fun _ => True :=
  (stays_record ref).andThen fun _ => stays_editLinks htransformers ref haccepts _

end

/-- What follows a validator that is read from an argument stays within a horizon if it does
for every validator that stays there. -/
theorem stays_validatorArgument {Result : Type} {next : (List Int → Eval Bool) → Eval Result}
    {givesNext : Result → Prop} (hcaller : StayingCaller horizon caller)
    (hargument : ∀ position, (argument position).Stays horizon gives)
    (hnext : ∀ accepts : List Int → Eval Bool,
      (∀ payload, (accepts payload).Stays horizon fun _ => True) →
        (next accepts).Stays horizon givesNext) :
    (validatorArgument caller arguments argument >>= next).Stays horizon givesNext := by
  unfold validatorArgument
  split
  · rw [pure_bind]
    exact hnext _ fun _ => stays_pure trivial
  · simp only [bind_assoc, pure_bind]
    refine (hargument 2).andThen fun value => (stays_plain _).andThen fun validator => ?_
    exact hnext _ fun payload => stays_validate hcaller validator payload

theorem stays_onTarget (hcaller : StayingCaller horizon caller)
    (harguments : ∀ argument ∈ arguments, StayingArgument horizon holds argument)
    (procedure : Procedure) (target : RecordRef) :
    (procedure.onTarget caller arguments target).Stays horizon fun _ => True := by
  have hargument := fun position =>
    stays_argument harguments procedure.name position (some target)
  unfold onTarget
  cases procedure with
  | setField =>
    refine (hargument 0).andThen fun first => (stays_plain _).andThen fun name => ?_
    refine (hargument 1).andThen fun value => stays_labels.andThen fun labels => ?_
    exact stays_onActive (Work.stays_setField target name _)
  | forceSetField =>
    refine (hargument 0).andThen fun first => (stays_plain _).andThen fun name => ?_
    refine (hargument 1).andThen fun value => (hargument 2).andThen fun third => ?_
    refine (stays_plain _).andThen fun declared => stays_labels.andThen fun labels => ?_
    exact stays_onActive (Work.stays_forceSetField target name _ declared)
  | deleteRecords => exact stays_onActive (Work.stays_deleteRecord target)
  | editExtraData =>
    refine (hargument 0).andThen fun first => (stays_plain _).andThen fun category => ?_
    refine (hargument 1).andThen fun second => (stays_plain _).andThen fun lambdas => ?_
    have hclosures : (lambdas.mapM fun item => labelled fun labels =>
        item.expectClosure labels "EditExtraData transformer").Stays horizon fun _ => True :=
      (stays_mapM fun item _ => (stays_plain _).mono fun _ hgiven (_ : True) => hgiven).any
    refine hclosures.andThen fun closures => ?_
    refine stays_validatorArgument hcaller hargument fun accepts haccepts => ?_
    refine (stays_editCategory (fun transformer htransformer number => ?_) target category
      haccepts).andThen fun _ => stays_pure trivial
    obtain ⟨closure, -, rfl⟩ := List.mem_map.mp htransformer
    exact stays_transform hcaller closure number
  | _ => exact stays_fail _

theorem stays_payloadArgument (hargument : ∀ position, (argument position).Stays horizon gives)
    (position : Nat) :
    (payloadArgument arguments argument position).Stays horizon fun _ => True := by
  unfold payloadArgument
  split
  · exact stays_pure trivial
  · exact (hargument position).andThen fun value => (stays_plain _).andThen fun payload =>
      stays_pure trivial

theorem stays_linkPair
    (harguments : ∀ argument ∈ arguments, StayingArgument horizon holds argument)
    (procedure : Procedure) (target source : RecordRef) (forced : Bool) :
    (linkPair procedure arguments target source forced).Stays horizon fun _ => True := by
  have hargument := fun position =>
    stays_argument harguments procedure.name position (some target)
  refine (hargument 1).andThen fun value => (stays_plain _).andThen fun category => ?_
  refine (stays_payloadArgument hargument 2).andThen fun payload => ?_
  exact stays_onActive (Work.stays_addLink target source category payload forced)

theorem stays_setFromSource (hcaller : StayingCaller horizon caller)
    (harguments : ∀ argument ∈ arguments, StayingArgument horizon holds argument)
    (procedure : Procedure) (target source : RecordRef) :
    (setFromSource caller procedure arguments target source).Stays horizon fun _ => True := by
  have hargument := stays_argument harguments procedure.name
  refine (hargument 1 (some target)).andThen fun value => (stays_plain _).andThen fun name => ?_
  refine (stays_record target).andThen fun before => ?_
  dsimp only
  split
  · exact stays_fail_bind _ _
  refine (hargument 2 (some source)).andThen fun third => (stays_plain _).andThen
    fun closure => ?_
  refine (stays_record target).andThen fun current => ?_
  refine (stays_settled _).andThen fun plain => ?_
  refine (hcaller closure _).andThen fun result => stays_labels.andThen fun labels => ?_
  exact stays_onActive (Work.stays_setField target name _)

theorem stays_onPair (hcaller : StayingCaller horizon caller)
    (harguments : ∀ argument ∈ arguments, StayingArgument horizon holds argument)
    (procedure : Procedure) (target source : RecordRef) :
    (procedure.onPair caller arguments target source).Stays horizon fun _ => True := by
  unfold onPair
  cases procedure with
  | addExtraData => exact stays_linkPair harguments _ target source false
  | forceAddExtraData => exact stays_linkPair harguments _ target source true
  | setFieldFromOther => exact stays_setFromSource hcaller harguments _ target source
  | _ => exact stays_fail _

theorem stays_conclude (procedure : Procedure) (targets : Group) (sources : Option Group)
    (mod : Mod) (applied : Nat) :
    (procedure.conclude targets sources mod applied).Stays horizon fun _ => True := by
  have hdependencies : ((do
      onActive (Work.addDependencies (headerEntries targets mod))
      note .debug .procedures (procedure.name ++ " applied " ++ integerText applied ++
        " time(s)")) : Eval Unit).Stays horizon fun _ => True :=
    (stays_onActive (Work.stays_addDependencies _)).andThen fun _ => stays_note _ _ _
  unfold conclude
  cases sources with
  | none => exact hdependencies
  | some group =>
    exact (stays_onActive (Work.stays_addReferences _)).andThen fun _ => hdependencies

theorem stays_apply (hcaller : StayingCaller horizon caller)
    (harguments : ∀ argument ∈ arguments, StayingArgument horizon holds argument)
    (procedure : Procedure) (targets : Group) (pairwise : Bool) :
    (procedure.apply caller arguments targets pairwise).Stays horizon fun _ => True := by
  cases htwo : procedure.hasSource with
  | false =>
    rw [apply_of_one _ _ _ _ htwo]
    refine stays_requireActive.andThen fun mod => ?_
    exact (stays_forM fun target _ => stays_onTarget hcaller harguments procedure target).andThen
      fun _ => stays_conclude _ _ _ _ _
  | true =>
    rw [apply_of_two _ _ _ _ htwo]
    refine stays_requireActive.andThen fun mod => ?_
    have hsources : (procedure.sourceGroup arguments).Stays horizon fun _ => True :=
      (stays_argument harguments procedure.name 0 none).andThen fun _ => stays_plain _
    refine hsources.andThen fun sources => ?_
    refine (stays_settled _).andThen fun paired => ?_
    refine (stays_forM fun pair _ => ?_).andThen fun _ => stays_conclude _ _ _ _ _
    exact stays_onPair hcaller harguments procedure pair.1 pair.2

end Procedure

end Patchwork
