import Patchwork.Proofs.Likeness.Values
import Patchwork.Proofs.Relocation.Worlds

/-!
# Calls of built-ins with like arguments

Functions, predicates, commands and procedures come out alike when their arguments do.
-/

namespace Patchwork

open Eval

namespace Likeness

variable {likeness : Likeness}

/-- Arguments that come out alike for every record. -/
def Arguments (likeness : Likeness) (argument argument' : Argument) : Prop :=
  ∀ record, Alike likeness.Values (argument record) (argument' record)

/-- Two ways of calling closures that come out alike for like closures and values. -/
def Callers (likeness : Likeness) (caller caller' : Caller) : Prop :=
  ∀ closure closure' values values', likeness.Closures closure closure' →
    List.Forall₂ likeness.Values values values' →
    Alike likeness.Values (caller closure values) (caller' closure' values')

variable {arguments arguments' : List Argument} {record : Option RecordRef}

/-! ## Coerced arguments -/

namespace Values

variable {value value' : Value} (hvalues : likeness.Values value value')

include hvalues

theorem string (purpose : String) :
    Alike Eq (labelled (value.expectString · purpose)) (labelled (value'.expectString · purpose)) :=
  Alike.of_labelled_eq fun labels => hvalues.expectString labels purpose

theorem boolean (purpose : String) :
    Alike Eq (labelled (value.expectBoolean · purpose))
      (labelled (value'.expectBoolean · purpose)) :=
  Alike.of_labelled_eq fun labels => hvalues.expectBoolean labels purpose

theorem group (purpose : String) :
    Alike Eq (labelled (value.expectGroup · purpose)) (labelled (value'.expectGroup · purpose)) :=
  Alike.of_labelled_eq fun labels => hvalues.expectGroup labels purpose

theorem integer (purpose : String) :
    Alike Eq (labelled (value.expectInteger · purpose))
      (labelled (value'.expectInteger · purpose)) :=
  Alike.of_labelled_eq fun labels => hvalues.expectInteger labels purpose

theorem integers (purpose : String) :
    Alike Eq (labelled (value.expectIntegers · purpose))
      (labelled (value'.expectIntegers · purpose)) :=
  Alike.of_labelled_eq fun labels => hvalues.expectIntegers labels purpose

theorem array (purpose : String) :
    Alike (List.Forall₂ likeness.Values) (labelled (value.expectArray · purpose))
      (labelled (value'.expectArray · purpose)) :=
  Alike.of_labelled fun labels => hvalues.expectArray labels purpose

theorem closure (purpose : String) :
    Alike likeness.Closures (labelled (value.expectClosure · purpose))
      (labelled (value'.expectClosure · purpose)) :=
  Alike.of_labelled fun labels => hvalues.expectClosure labels purpose

theorem asFloat : Alike Eq (labelled value.toFloat) (labelled value'.toFloat) :=
  Alike.of_labelled_eq hvalues.toFloat

theorem asInteger : Alike Eq (labelled value.toInteger) (labelled value'.toInteger) :=
  Alike.of_labelled_eq hvalues.toInteger

theorem asBoolean : Alike Eq (labelled value.toBoolean) (labelled value'.toBoolean) :=
  Alike.of_labelled_eq hvalues.toBoolean

end Values

theorem argument_alike (name : String)
    (harguments : List.Forall₂ likeness.Arguments arguments arguments')
    (record : Option RecordRef) (position : Nat) :
    Alike likeness.Values (argument name arguments position record)
      (argument name arguments' position record) := by
  unfold argument
  induction harguments generalizing position with
  | nil => exact Alike.of_fail _ _
  | cons hfirst _ ih =>
    cases position with
    | zero => exact hfirst record
    | succ position =>
      rw [List.getElem?_cons_succ, List.getElem?_cons_succ]
      exact ih position

theorem rel_getElem? {items items' : List Value}
    (hitems : List.Forall₂ likeness.Values items items') (position : Nat) :
    Option.Rel likeness.Values items[position]? items'[position]? := by
  induction hitems generalizing position with
  | nil => exact .none
  | cons hitem _ ih =>
    cases position with
    | zero => exact .some hitem
    | succ position => exact ih position

/-- An evaluation that gives values like themselves comes out like itself. -/
theorem alike_of_gives {evaluation : Eval Value}
    (hgives : ∀ before value after, evaluation.Yields before value after →
      likeness.Values value value) : Alike likeness.Values evaluation evaluation where
  forth before value after hyields := ⟨value, hyields, hgives before value after hyields⟩
  back before value after hyields := ⟨value, hyields, hgives before value after hyields⟩

theorem mark_alike {value value' : Value} (hvalues : likeness.Values value value') :
    Alike likeness.Values (mark value) (mark value') := by
  by_cases hunmarked : value = .float (.nan 0)
  · subst hunmarked
    cases likeness.values_iff.mp hvalues
    exact Alike.of_same_bind fun _ => Alike.of_pure (values_atom trivial)
  · have hother : value' ≠ .float (.nan 0) := by
      rintro rfl
      cases likeness.values_iff.mp hvalues
      exact hunmarked rfl
    rw [mark_of_ne hunmarked, mark_of_ne hother]
    exact Alike.of_pure hvalues

/-! ## Functions -/

theorem numbers_alike (purpose : String) {value value' : Value}
    (hvalues : likeness.Values value value') :
    Alike Eq (Function.numbers purpose value) (Function.numbers purpose value') := by
  refine (hvalues.array purpose).of_bind fun items items' hitems => ?_
  have hempty : items'.isEmpty = items.isEmpty := by
    cases hitems <;> rfl
  rw [hempty]
  split
  · exact Alike.of_fail_bind _ _ _ _
  · refine (Alike.of_mapM hitems fun _ _ hitem => hitem.asFloat).mono fun _ _ heq => ?_
    rwa [List.forall₂_eq_eq_eq] at heq

theorem function_result_alike (function : Function)
    (harguments : List.Forall₂ likeness.Arguments arguments arguments') :
    Alike likeness.Values (function.result record arguments)
      (function.result record arguments') := by
  have hargument := argument_alike function.name harguments record
  cases function with
  | getField =>
    refine Alike.of_same_bind fun ref => ?_
    refine (hargument 0).of_bind fun value value' hvalues => ?_
    refine (hvalues.string _).of_bind_eq fun name => ?_
    refine Alike.of_same_bind fun current => ?_
    cases current.field? name with
    | none => exact Alike.of_fail _ _
    | some plain =>
      refine alike_of_gives fun before value after hyields => ?_
      obtain ⟨hplain, -⟩ := yields_settle.mp hyields
      exact values_of_data value ((Value.meets_ofPlain plain).gives value hplain)
  | toInt =>
    refine (hargument 0).of_bind fun value value' hvalues => ?_
    exact hvalues.asInteger.of_bind_eq fun _ => Alike.of_pure (values_atom trivial)
  | toFloat =>
    refine (hargument 0).of_bind fun value value' hvalues => ?_
    exact hvalues.asFloat.of_bind_eq fun _ => Alike.of_pure (values_atom trivial)
  | min =>
    refine (hargument 0).of_bind fun value value' hvalues => ?_
    exact (numbers_alike _ hvalues).of_bind_eq fun numbers =>
      Alike.of_pure (values_of_data _ (Value.data_ofNumber _))
  | max =>
    refine (hargument 0).of_bind fun value value' hvalues => ?_
    exact (numbers_alike _ hvalues).of_bind_eq fun numbers =>
      Alike.of_pure (values_of_data _ (Value.data_ofNumber _))
  | arrIndex =>
    refine (hargument 0).of_bind fun value value' hvalues => ?_
    refine (hvalues.array _).of_bind fun items items' hitems => ?_
    refine (hargument 1).of_bind fun index index' hindexes => ?_
    refine (hindexes.integer _).of_bind_eq fun position => ?_
    dsimp only
    split
    · exact Alike.of_fail_bind _ _ _ _
    · have helements := rel_getElem? hitems position.toNat
      generalize items[position.toNat]? = element, items'[position.toNat]? = element'
        at helements ⊢
      cases helements with
      | none => exact Alike.of_fail _ _
      | some helement =>
        dsimp only
        rw [helement.isIntegerLike]
        split
        · exact helement.asInteger.of_bind_eq fun _ => Alike.of_pure (values_atom trivial)
        · exact Alike.of_same_bind fun _ => Alike.of_fail _ _
  | randomFloat =>
    refine Alike.of_same_bind fun world => ?_
    exact Alike.of_same_bind fun _ => Alike.of_pure (values_atom trivial)
  | randomBetweenInts =>
    refine (hargument 0).of_bind fun first first' hfirst => ?_
    refine (hfirst.integer _).of_bind_eq fun low => ?_
    refine (hargument 1).of_bind fun second second' hsecond => ?_
    refine (hsecond.integer _).of_bind_eq fun high => ?_
    dsimp only
    split
    · exact Alike.of_fail_bind _ _ _ _
    · split
      · exact Alike.of_pure (values_atom trivial)
      · exact Alike.of_same_bind fun world =>
          Alike.of_same_bind fun _ => Alike.of_pure (values_atom trivial)
  | containsExact | containsFolded =>
    refine (hargument 0).of_bind fun first first' hfirst => ?_
    refine (hfirst.string _).of_bind_eq fun text => ?_
    refine (hargument 1).of_bind fun second second' hsecond => ?_
    exact (hsecond.string _).of_bind_eq fun part => Alike.of_pure (values_atom trivial)
  | count =>
    refine (hargument 0).of_bind fun value value' hvalues => ?_
    exact (hvalues.group _).of_bind_eq fun group => Alike.of_pure (values_atom trivial)
  | clone =>
    refine (hargument 0).of_bind fun value value' hvalues => ?_
    refine (hvalues.group _).of_bind_eq fun group => ?_
    refine (hargument 1).of_bind fun second second' hsecond => ?_
    refine (hsecond.integer _).of_bind_eq fun count => ?_
    unfold Function.cloneGroup
    split
    · exact Alike.of_same_bind fun mod =>
        Alike.of_same_bind fun clones => Alike.of_pure (values_atom trivial)
    · exact Alike.of_fail _ _

theorem function_apply_alike (function : Function)
    (harguments : List.Forall₂ likeness.Arguments arguments arguments') :
    Alike likeness.Values (function.apply record arguments) (function.apply record arguments') :=
  (function_result_alike function harguments).of_bind fun _ _ => mark_alike

/-! ## Predicates -/

theorem linkArguments_alike (harguments : List.Forall₂ likeness.Arguments arguments arguments')
    {argument argument' : Nat → Eval Value}
    (hargument : ∀ position, Alike likeness.Values (argument position) (argument' position)) :
    Alike Eq (Predicate.linkArguments arguments argument)
      (Predicate.linkArguments arguments' argument') := by
  unfold Predicate.linkArguments
  rw [← harguments.length_eq]
  refine (hargument 0).of_bind fun value value' hvalues => ?_
  refine (hvalues.group _).of_bind_eq fun group => ?_
  split
  · exact Alike.of_pure rfl
  · refine (hargument 1).of_bind fun second second' hsecond => ?_
    refine (hsecond.string _).of_bind_eq fun category => ?_
    split
    · exact Alike.of_pure rfl
    · refine (hargument 2).of_bind fun third third' hthird => ?_
      exact (hthird.integers _).of_bind_eq fun payload => Alike.of_pure rfl

theorem testField_alike (predicate : Predicate) {argument argument' : Nat → Eval Value}
    (hargument : ∀ position, Alike likeness.Values (argument position) (argument' position))
    (test : Record → String → Bool) :
    Alike Eq (predicate.testField record argument test)
      (predicate.testField record argument' test) := by
  refine Alike.of_same_bind fun ref => ?_
  refine (hargument 0).of_bind fun value value' hvalues => ?_
  refine (hvalues.string _).of_bind_eq fun name => ?_
  exact Alike.of_same_bind fun current => Alike.of_pure rfl

theorem testLinks_alike (predicate : Predicate)
    (harguments : List.Forall₂ likeness.Arguments arguments arguments')
    {argument argument' : Nat → Eval Value}
    (hargument : ∀ position, Alike likeness.Values (argument position) (argument' position))
    (test : Record → List Record → Option String → Option (List Int) → Bool) :
    Alike Eq (predicate.testLinks record arguments argument test)
      (predicate.testLinks record arguments' argument' test) := by
  refine Alike.of_same_bind fun ref => ?_
  refine (linkArguments_alike harguments hargument).of_bind_eq fun links => ?_
  exact Alike.of_same_bind fun world => Alike.of_pure rfl

theorem predicate_apply_alike (predicate : Predicate)
    (harguments : List.Forall₂ likeness.Arguments arguments arguments') :
    Alike Eq (predicate.apply record arguments) (predicate.apply record arguments') := by
  have hargument := argument_alike predicate.name harguments record
  cases predicate with
  | always | never => exact Alike.of_pure rfl
  | fieldExist | fieldIsNotEmpty | fieldIsEmptyOrNotExist | fieldIsEmptyAndExist =>
    unfold Predicate.apply
    exact testField_alike _ hargument _
  | isLinkOfAny | linksAny | linksAll =>
    unfold Predicate.apply
    exact testLinks_alike _ harguments hargument _
  | isRemoved => exact Alike.refl _

/-! ## Commands -/

theorem joinedArguments_alike
    (harguments : List.Forall₂ likeness.Arguments arguments arguments') :
    Alike Eq (Command.joinedArguments record arguments)
      (Command.joinedArguments record arguments') := by
  have htexts : Alike (List.Forall₂ Eq)
      (arguments.mapM fun argument => do return (← argument record).display (← labels))
      (arguments'.mapM fun argument => do return (← argument record).display (← labels)) := by
    refine Alike.of_mapM harguments fun argument argument' hargument => ?_
    refine (hargument record).of_bind fun value value' hvalues => ?_
    exact Alike.of_same_bind fun labels => Alike.of_pure (likeness.display hvalues labels).symm
  refine htexts.of_bind fun texts texts' heq => ?_
  rw [List.forall₂_eq_eq_eq] at heq
  rw [heq]
  exact Alike.refl _

theorem command_apply_alike (repository : Repository) (command : Command)
    (harguments : List.Forall₂ likeness.Arguments arguments arguments') :
    Alike Eq (command.apply repository record arguments)
      (command.apply repository record arguments') := by
  have hargument := argument_alike command.name harguments record
  cases command with
  | print | debug =>
    exact (joinedArguments_alike harguments).of_bind_eq fun _ => Alike.refl _
  | inspectRecord =>
    refine (hargument 0).of_bind fun value value' hvalues => ?_
    refine (hvalues.group _).of_bind_eq fun group => ?_
    refine (hargument 1).of_bind fun second second' hsecond => ?_
    refine Alike.of_same_bind fun labels => ?_
    rw [likeness.display hsecond labels]
    exact Alike.refl _
  | showRecordEvolution =>
    refine (hargument 0).of_bind fun value value' hvalues => ?_
    refine Alike.of_same_bind fun labels => ?_
    rw [likeness.display hvalues labels]
    exact Alike.refl _
  | stop => exact Alike.refl _

/-! ## Procedures -/

variable {caller caller' : Caller} {target source : RecordRef}

theorem transform_alike (hcallers : likeness.Callers caller caller') {closure closure' : Closure}
    (hclosures : likeness.Closures closure closure') (number : Int) :
    Alike Eq (Procedure.transform caller closure number)
      (Procedure.transform caller' closure' number) := by
  have hnumbers : List.Forall₂ likeness.Values [.integer number] [.integer number] :=
    List.Forall₂.cons (values_atom trivial) List.Forall₂.nil
  refine (hcallers _ _ _ _ hclosures hnumbers).of_bind fun value value' hvalues => ?_
  cases likeness.values_iff.mp hvalues with
  | array | closure => exact Alike.of_same_bind fun labels => Alike.of_fail _ _
  | atom => exact Alike.refl _

theorem validate_alike (hcallers : likeness.Callers caller caller') {closure closure' : Closure}
    (hclosures : likeness.Closures closure closure') (payload : List Int) :
    Alike Eq (Procedure.validate caller closure payload)
      (Procedure.validate caller' closure' payload) := by
  have hdata : AllData (payload.map .integer) := by
    rw [allData_iff]
    intro item hitem
    obtain ⟨number, -, rfl⟩ := List.mem_map.mp hitem
    trivial
  have hpayloads : List.Forall₂ likeness.Values [.array (payload.map .integer)]
      [.array (payload.map .integer)] :=
    List.Forall₂.cons (values_of_data _ hdata) List.Forall₂.nil
  exact (hcallers _ _ _ _ hclosures hpayloads).of_bind fun _ _ hvalues => hvalues.boolean _

/-- Transformers that come out alike for every number. -/
def SameTransformers (transformers transformers' : List (Int → Eval Int)) : Prop :=
  List.Forall₂ (fun transformer transformer' : Int → Eval Int =>
    ∀ number, Alike Eq (transformer number) (transformer' number)) transformers transformers'

theorem transformPayload_alike {transformers transformers' : List (Int → Eval Int)}
    (htransformers : SameTransformers transformers transformers') (payload : List Int) :
    Alike Eq (Procedure.transformPayload transformers payload)
      (Procedure.transformPayload transformers' payload) := by
  induction payload generalizing transformers transformers' with
  | nil =>
    unfold Procedure.transformPayload
    exact Alike.of_pure rfl
  | cons number rest ih =>
    cases htransformers with
    | nil => exact Alike.of_pure rfl
    | cons hfirst hrest =>
      exact (hfirst number).of_bind_eq fun first =>
        (ih hrest).of_bind_eq fun others => Alike.of_pure rfl

theorem editLinks_alike {transformers transformers' : List (Int → Eval Int)}
    (htransformers : SameTransformers transformers transformers')
    {accepts accepts' : List Int → Eval Bool}
    (haccepts : ∀ payload, Alike Eq (accepts payload) (accepts' payload)) (links : List Link) :
    Alike Eq (Procedure.editLinks target transformers accepts links)
      (Procedure.editLinks target transformers' accepts' links) := by
  induction links with
  | nil => exact Alike.of_pure rfl
  | cons link rest ih =>
    refine (haccepts link.payload).of_bind_eq fun accepted => ?_
    split
    · refine (transformPayload_alike htransformers link.payload).of_bind_eq fun payload => ?_
      exact Alike.of_same_bind fun _ => ih.of_bind_eq fun count => Alike.of_pure rfl
    · exact ih

theorem validatorArgument_alike (hcallers : likeness.Callers caller caller')
    (harguments : List.Forall₂ likeness.Arguments arguments arguments')
    {argument argument' : Nat → Eval Value}
    (hargument : ∀ position, Alike likeness.Values (argument position) (argument' position)) :
    Alike (fun accepts accepts' : List Int → Eval Bool =>
        ∀ payload, Alike Eq (accepts payload) (accepts' payload))
      (Procedure.validatorArgument caller arguments argument)
      (Procedure.validatorArgument caller' arguments' argument') := by
  unfold Procedure.validatorArgument
  rw [← harguments.length_eq]
  split
  · exact Alike.of_pure fun _ => Alike.refl _
  · refine (hargument 2).of_bind fun value value' hvalues => ?_
    exact (hvalues.closure _).of_bind fun closure closure' hclosures =>
      Alike.of_pure (validate_alike hcallers hclosures)

theorem onTarget_alike (hcallers : likeness.Callers caller caller') (procedure : Procedure)
    (harguments : List.Forall₂ likeness.Arguments arguments arguments') :
    Alike Eq (procedure.onTarget caller arguments target)
      (procedure.onTarget caller' arguments' target) := by
  have hargument := argument_alike procedure.name harguments (some target)
  cases procedure with
  | setField =>
    refine (hargument 0).of_bind fun first first' hfirst => ?_
    refine (hfirst.string _).of_bind_eq fun name => ?_
    refine (hargument 1).of_bind fun value value' hvalues => ?_
    refine Alike.of_same_bind fun labels => ?_
    rw [likeness.display hvalues labels]
    exact Alike.refl _
  | forceSetField =>
    refine (hargument 0).of_bind fun first first' hfirst => ?_
    refine (hfirst.string _).of_bind_eq fun name => ?_
    refine (hargument 1).of_bind fun value value' hvalues => ?_
    refine (hargument 2).of_bind fun third third' hthird => ?_
    refine (hthird.string _).of_bind_eq fun declared => ?_
    refine Alike.of_same_bind fun labels => ?_
    rw [likeness.display hvalues labels]
    exact Alike.refl _
  | deleteRecords => exact Alike.refl _
  | editExtraData =>
    refine (hargument 0).of_bind fun first first' hfirst => ?_
    refine (hfirst.string _).of_bind_eq fun category => ?_
    refine (hargument 1).of_bind fun second second' hsecond => ?_
    refine (hsecond.array _).of_bind fun lambdas lambdas' hlambdas => ?_
    refine (Alike.of_mapM hlambdas fun _ _ hitems => hitems.closure _).of_bind
      fun closures closures' hclosures => ?_
    refine (validatorArgument_alike hcallers harguments hargument).of_bind
      fun accepts accepts' haccepts => ?_
    have htransformers : SameTransformers (closures.map (Procedure.transform caller))
        (closures'.map (Procedure.transform caller')) := by
      unfold SameTransformers
      rw [List.forall₂_map_left_iff, List.forall₂_map_right_iff]
      exact hclosures.imp fun _ _ => transform_alike hcallers
    refine Alike.of_bind_eq (Alike.of_same_bind fun current => ?_) fun _ => Alike.refl _
    exact editLinks_alike htransformers haccepts _
  | _ => exact Alike.of_fail _ _

theorem payloadArgument_alike
    (harguments : List.Forall₂ likeness.Arguments arguments arguments')
    {argument argument' : Nat → Eval Value}
    (hargument : ∀ position, Alike likeness.Values (argument position) (argument' position))
    (position : Nat) :
    Alike Eq (Procedure.payloadArgument arguments argument position)
      (Procedure.payloadArgument arguments' argument' position) := by
  unfold Procedure.payloadArgument
  rw [← harguments.length_eq]
  split
  · exact Alike.of_pure rfl
  · refine (hargument position).of_bind fun value value' hvalues => ?_
    exact (hvalues.integers _).of_bind_eq fun payload => Alike.of_pure rfl

theorem linkPair_alike (procedure : Procedure)
    (harguments : List.Forall₂ likeness.Arguments arguments arguments') (forced : Bool) :
    Alike Eq (Procedure.linkPair procedure arguments target source forced)
      (Procedure.linkPair procedure arguments' target source forced) := by
  have hargument := argument_alike procedure.name harguments (some target)
  refine (hargument 1).of_bind fun first first' hfirst => ?_
  refine (hfirst.string _).of_bind_eq fun category => ?_
  exact (payloadArgument_alike harguments hargument 2).of_bind_eq fun payload => Alike.refl _

theorem setFromSource_alike (hcallers : likeness.Callers caller caller') (procedure : Procedure)
    (harguments : List.Forall₂ likeness.Arguments arguments arguments') :
    Alike Eq (Procedure.setFromSource caller procedure arguments target source)
      (Procedure.setFromSource caller' procedure arguments' target source) := by
  have hargument := argument_alike procedure.name harguments
  refine (hargument (some target) 1).of_bind fun first first' hfirst => ?_
  refine (hfirst.string _).of_bind_eq fun name => ?_
  refine Alike.of_same_bind fun before => ?_
  dsimp only
  split
  · exact Alike.of_fail_bind _ _ _ _
  refine (hargument (some source) 2).of_bind fun second second' hsecond => ?_
  refine (hsecond.closure _).of_bind fun closure closure' hclosures => ?_
  refine Alike.of_same_bind fun current => ?_
  have hplain : Alike likeness.Values
      (settle (Value.ofPlain ((current.field? name).getD .null)))
      (settle (Value.ofPlain ((current.field? name).getD .null))) := by
    refine alike_of_gives fun before value after hyields => ?_
    obtain ⟨hplain, -⟩ := yields_settle.mp hyields
    exact values_of_data value ((Value.meets_ofPlain _).gives value hplain)
  refine hplain.of_bind fun value value' hvalues => ?_
  refine (hcallers _ _ _ _ hclosures (List.Forall₂.cons hvalues List.Forall₂.nil)).of_bind
    fun result result' hresults => ?_
  refine Alike.of_same_bind fun labels => ?_
  rw [likeness.display hresults labels]
  exact Alike.refl _

theorem onPair_alike (hcallers : likeness.Callers caller caller') (procedure : Procedure)
    (harguments : List.Forall₂ likeness.Arguments arguments arguments') :
    Alike Eq (procedure.onPair caller arguments target source)
      (procedure.onPair caller' arguments' target source) := by
  cases procedure with
  | addExtraData => exact linkPair_alike _ harguments false
  | forceAddExtraData => exact linkPair_alike _ harguments true
  | setFieldFromOther => exact setFromSource_alike hcallers _ harguments
  | _ => exact Alike.of_fail _ _

theorem procedure_apply_alike (hcallers : likeness.Callers caller caller') (procedure : Procedure)
    (harguments : List.Forall₂ likeness.Arguments arguments arguments') (targets : Group)
    (pairwise : Bool) :
    Alike Eq (procedure.apply caller arguments targets pairwise)
      (procedure.apply caller' arguments' targets pairwise) := by
  refine Alike.of_same_bind fun mod => ?_
  dsimp only
  split
  · refine (argument_alike procedure.name harguments none 0).of_bind fun value value' hvalues => ?_
    refine (hvalues.group _).of_bind_eq fun group => ?_
    refine Alike.of_same_bind fun paired => ?_
    exact (Alike.of_forM fun pair => onPair_alike hcallers procedure harguments).of_bind_eq
      fun _ => Alike.refl _
  · exact (Alike.of_forM fun target => onTarget_alike hcallers procedure harguments).of_bind_eq
      fun _ => Alike.refl _

end Likeness

end Patchwork
