import Patchwork.Proofs.Trails.Calls

/-!
# Procedures keep to the rules

A procedure that may be called keeps to the rules on a group whose records lie where they
may, if it has as many arguments as reading accepts.
-/

namespace Patchwork

open Eval

/-- A caller under which closures that obey the rules keep to them when they are called on
values that obey them. -/
def Eval.KeepingCaller (repository : Repository) (rules : Rules) (caller : Caller) : Prop :=
  ∀ (closure : Closure) values, closure.body.Obeys rules →
    (∀ value ∈ values, value.Obeys rules) →
    (caller closure values).Keeps repository rules (Value.Obeys rules)

namespace Procedure

variable {repository : Repository} {rules : Rules} {caller : Caller} {arguments : List Argument}
  {target source : RecordRef} (hcaller : KeepingCaller repository rules caller)
  (harguments : ∀ argument ∈ arguments, KeptArgument repository rules argument)

/-! ## Work on payloads -/

include hcaller in
theorem keeps_transform {closure : Closure} (hclosure : closure.body.Obeys rules)
    (number : Int) :
    (transform caller closure number).Keeps repository rules fun _ => True := by
  have hcall := hcaller closure [.integer number] hclosure
    (List.forall_mem_singleton.mpr trivial)
  refine hcall.andThen fun value => ?_
  cases value with
  | integer transformed => exact keeps_pure trivial
  | _ => exact keeps_labels.andThen fun _ => keeps_fail trivial

include hcaller in
theorem keeps_validate {closure : Closure} (hclosure : closure.body.Obeys rules)
    (payload : List Int) :
    (validate caller closure payload).Keeps repository rules fun _ => True := by
  have hpayload : (Value.array (payload.map .integer)).Obeys rules := by
    refine allValuesObey_iff.mpr fun item hitem => ?_
    obtain ⟨number, -, rfl⟩ := List.mem_map.mp hitem
    trivial
  have hcall := hcaller closure [.array (payload.map .integer)] hclosure
    (List.forall_mem_singleton.mpr hpayload)
  exact hcall.andThen fun verdict => verdict.keeps_expectBoolean _

theorem keeps_transformPayload {transformers : List (Int → Eval Int)}
    (htransformers : ∀ transformer ∈ transformers, ∀ number,
      (transformer number).Keeps repository rules fun _ => True)
    (payload : List Int) :
    (transformPayload transformers payload).Keeps repository rules fun _ => True := by
  induction payload generalizing transformers with
  | nil => cases transformers <;> exact keeps_pure trivial
  | cons number rest ih =>
    cases transformers with
    | nil => exact keeps_pure trivial
    | cons transformer others =>
      refine (htransformers transformer List.mem_cons_self number).andThen fun transformed => ?_
      have hrest := ih fun other hother => htransformers other (List.mem_cons_of_mem _ hother)
      exact hrest.andThen fun _ => keeps_pure trivial

/-! ## Work on one target -/

section

variable {transformers : List (Int → Eval Int)} {accepts : List Int → Eval Bool}
  (htarget : rules.first ≤ target.index)
  (htransformers : ∀ transformer ∈ transformers, ∀ number,
    (transformer number).Keeps repository rules fun _ => True)
  (haccepts : ∀ payload, (accepts payload).Keeps repository rules fun _ => True)

include htarget htransformers haccepts

theorem keeps_editLinks (links : List Link) :
    (editLinks target transformers accepts links).Keeps repository rules fun _ => True := by
  induction links with
  | nil => exact keeps_pure trivial
  | cons link rest ih =>
    refine (haccepts link.payload).andThen fun accepted => ?_
    cases accepted with
    | false => exact ih
    | true =>
      refine (keeps_transformPayload htransformers link.payload).andThen fun payload => ?_
      refine (keeps_edit target (.relink { link with payload := payload }) htarget trivial).andThen
        fun _ => ?_
      exact ih.andThen fun _ => keeps_pure trivial

theorem keeps_editCategory (category : String) :
    (editCategory target category transformers accepts).Keeps repository rules fun _ => True :=
  (keeps_record target).andThen fun _ => keeps_editLinks htarget htransformers haccepts _

end

include hcaller in
theorem keeps_validatorArgument {argument : Nat → Eval Value}
    (hargument : ∀ position < arguments.length,
      (argument position).Keeps repository rules (Value.Obeys rules)) :
    (validatorArgument caller arguments argument).Keeps repository rules fun accepts =>
      ∀ payload, (accepts payload).Keeps repository rules fun _ => True := by
  unfold validatorArgument
  split
  · exact keeps_pure fun payload => keeps_pure trivial
  · rename_i hthird
    refine (hargument 2 (Nat.not_le.mp hthird)).bind fun value hvalue => ?_
    refine (hvalue.keeps_expectClosure _).bind fun closure hbody => keeps_pure ?_
    exact keeps_validate hcaller hbody

include hcaller harguments in
theorem keeps_onTarget (procedure : Procedure) (hone : procedure.hasSource = false)
    (hpermits : rules.permits procedure) (haccepts : procedure.arity.Accepts arguments.length)
    (htarget : rules.first ≤ target.index) :
    (procedure.onTarget caller arguments target).Keeps repository rules fun _ => True := by
  have hargument := fun position (hposition : position < arguments.length) =>
    keeps_argument harguments procedure.name hposition (some target)
  have hfirst := fun position (hposition : position < procedure.arity.least) =>
    hargument position (Nat.lt_of_lt_of_le hposition haccepts.1)
  unfold onTarget
  cases procedure with
  | setField =>
    refine (hfirst 0 (by decide)).andThen fun first => ?_
    refine (first.keeps_expectString _).andThen fun name => ?_
    refine (hfirst 1 (by decide)).andThen fun value => keeps_labels.andThen fun labels => ?_
    exact keeps_edit target (.setField name (value.display labels)) htarget trivial
  | forceSetField =>
    refine (hfirst 0 (by decide)).andThen fun first => ?_
    refine (first.keeps_expectString _).andThen fun name => ?_
    refine (hfirst 1 (by decide)).andThen fun value => ?_
    refine (hfirst 2 (by decide)).andThen fun third => ?_
    refine (third.keeps_expectString _).andThen fun declared => ?_
    refine keeps_labels.andThen fun labels => ?_
    exact keeps_edit target (.forceSetField name (value.display labels) declared) htarget hpermits
  | deleteRecords => exact keeps_edit target .delete htarget trivial
  | editExtraData =>
    refine (hfirst 0 (by decide)).andThen fun first => ?_
    refine (first.keeps_expectString _).andThen fun category => ?_
    refine (hfirst 1 (by decide)).bind fun second hsecond => ?_
    refine (hsecond.keeps_expectArray _).bind fun items hitems => ?_
    refine (keeps_mapM fun item hitem => (hitems item hitem).keeps_expectClosure _).bind
      fun closures hbodies => ?_
    refine (keeps_validatorArgument hcaller hargument).bind fun accepts haccepts => ?_
    have htransformers : ∀ transformer ∈ closures.map (transform caller), ∀ number,
        (transformer number).Keeps repository rules fun _ => True := by
      intro transformer htransformer number
      obtain ⟨closure, hclosure, rfl⟩ := List.mem_map.mp htransformer
      exact keeps_transform hcaller (hbodies closure hclosure) number
    exact (keeps_editCategory htarget htransformers haccepts category).andThen
      fun _ => keeps_pure trivial
  | addExtraData | forceAddExtraData | setFieldFromOther => cases hone

/-! ## Work on a target and a source -/

theorem keeps_payloadArgument {argument : Nat → Eval Value}
    (hargument : ∀ position < arguments.length,
      (argument position).Keeps repository rules (Value.Obeys rules)) (position : Nat) :
    (payloadArgument arguments argument position).Keeps repository rules fun _ => True := by
  unfold payloadArgument
  split
  · exact keeps_pure trivial
  · rename_i hposition
    exact (hargument position (Nat.not_le.mp hposition)).andThen fun value =>
      (value.keeps_expectIntegers _).andThen fun payload => keeps_pure trivial

include harguments in
theorem keeps_linkPair (procedure : Procedure) (forced : Bool)
    (hsecond : 1 < arguments.length) (htarget : rules.first ≤ target.index) :
    (procedure.linkPair arguments target source forced).Keeps repository rules
      fun _ => True := by
  have hargument := fun position (hposition : position < arguments.length) =>
    keeps_argument harguments procedure.name hposition (some target)
  refine (hargument 1 hsecond).andThen fun first => ?_
  refine (first.keeps_expectString _).andThen fun category => ?_
  refine (keeps_payloadArgument hargument 2).andThen fun payload => ?_
  exact keeps_edit target (.addLink source category payload forced) htarget trivial

include hcaller harguments

theorem keeps_setFromSource (procedure : Procedure) (hthird : 2 < arguments.length)
    (htarget : rules.first ≤ target.index) :
    (procedure.setFromSource caller arguments target source).Keeps repository rules
      fun _ => True := by
  unfold setFromSource
  refine (keeps_argument harguments _ (Nat.lt_of_succ_lt hthird) (some target)).andThen
    fun first => ?_
  refine (first.keeps_expectString _).andThen fun name => ?_
  refine (keeps_record target).andThen fun before => ?_
  split
  · exact keeps_fail_bind (by trivial) _
  refine (keeps_argument harguments _ hthird (some source)).bind fun third hclosure => ?_
  refine (hclosure.keeps_expectClosure _).bind fun closure hbody => ?_
  refine (keeps_record target).andThen fun current => ?_
  refine (keeps_settle (Value.meets_ofPlain _)).bind fun value hvalue => ?_
  have hcall := hcaller closure [value] hbody (List.forall_mem_singleton.mpr hvalue.obeys)
  refine hcall.andThen fun result => keeps_labels.andThen fun labels => ?_
  exact keeps_edit target (.setField name (result.display labels)) htarget trivial

theorem keeps_onPair (procedure : Procedure) (htwo : procedure.hasSource = true)
    (haccepts : procedure.arity.Accepts arguments.length) (htarget : rules.first ≤ target.index) :
    (procedure.onPair caller arguments target source).Keeps repository rules fun _ => True := by
  cases procedure with
  | addExtraData => exact keeps_linkPair harguments _ false haccepts.1 htarget
  | forceAddExtraData => exact keeps_linkPair harguments _ true haccepts.1 htarget
  | setFieldFromOther => exact keeps_setFromSource hcaller harguments _ haccepts.1 htarget
  | setField | forceSetField | deleteRecords | editExtraData => cases htwo

omit hcaller harguments

/-! ## Whole procedures -/

theorem keeps_conclude (procedure : Procedure) (targets : Group) (sources : Option Group)
    (mod : Mod) (applied : Nat) :
    (procedure.conclude targets sources mod applied).Keeps repository rules fun _ => True := by
  have hend : (do
      onActive (Work.addDependencies (headerEntries targets mod))
      note .debug .procedures (procedure.name ++ " applied " ++ integerText applied ++
        " time(s)") : Eval Unit).Keeps repository rules fun _ => True :=
    (keeps_addDependencies _).andThen fun _ => keeps_note ..
  unfold conclude
  cases sources with
  | none => exact hend
  | some group => exact (keeps_addReferences _).andThen fun _ => hend

include harguments in
theorem keeps_sourceGroup (procedure : Procedure) (hsome : 0 < arguments.length) :
    (procedure.sourceGroup arguments).Keeps repository rules rules.Admits :=
  (keeps_argument harguments _ hsome none).bind fun _ hvalue =>
    hvalue.keeps_expectGroup (by cases procedure <;> decide)

include hcaller harguments

/-- A procedure that may be called keeps to the rules. -/
theorem keeps_apply (procedure : Procedure) (hpermits : rules.permits procedure)
    (haccepts : procedure.arity.Accepts arguments.length) {targets : Group}
    (htargets : rules.Admits targets) (pairwise : Bool) :
    (procedure.apply caller arguments targets pairwise).Keeps repository rules
      fun _ => True := by
  cases hsource : procedure.hasSource with
  | false =>
    rw [apply_of_one _ _ _ _ hsource]
    refine keeps_requireActive.andThen fun mod => ?_
    have hwork : (targets.records.forM (procedure.onTarget caller arguments)).Keeps repository
        rules fun _ => True := keeps_forM fun target htarget =>
      keeps_onTarget hcaller harguments procedure hsource hpermits haccepts
        (htargets target htarget)
    exact hwork.andThen fun _ => keeps_conclude ..
  | true =>
    have hsome : 0 < arguments.length :=
      Nat.lt_of_lt_of_le (by cases procedure <;> first | decide | cases hsource) haccepts.1
    rw [apply_of_two _ _ _ _ hsource]
    refine keeps_requireActive.andThen fun mod => ?_
    refine (keeps_sourceGroup harguments procedure hsome).andThen fun sources => ?_
    refine (keeps_settle (meets_pairs targets sources pairwise)).bind fun paired hpaired => ?_
    have hwork : (paired.forM fun pair => procedure.onPair caller arguments pair.1 pair.2).Keeps
        repository rules fun _ => True := keeps_forM fun pair hpair =>
      keeps_onPair hcaller harguments procedure hsource haccepts
        (htargets pair.1 (mem_pairs hpaired hpair).1)
    exact hwork.andThen fun _ => keeps_conclude ..

end Procedure

end Patchwork
