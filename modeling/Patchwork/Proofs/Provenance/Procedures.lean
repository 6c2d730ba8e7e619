import Patchwork.Proofs.Provenance.Calls

/-!
# Procedures proceed soundly

Procedures change and link the records of the groups they are applied to and nothing
else, and when they are completed that is the last of their deeds.
-/

namespace Patchwork

open Eval

/-- A caller under which closures with sound groups proceed soundly and give sound values
when they are called on sound ones. -/
def Eval.SoundCaller (repository : Repository) (origin : World) (caller : Caller) : Prop :=
  ∀ operands last (closure : Closure) values, origin.Onward last →
    AllSound repository last closure.body.groups →
    (∀ value ∈ values, value.Sound repository last) →
    (caller closure values).Proceeds repository operands last (Value.Sound repository)

theorem Eval.SoundCaller.later {repository : Repository} {origin last : World} {caller : Caller}
    (hcaller : SoundCaller repository origin caller) (honward : origin.Onward last) :
    SoundCaller repository last caller :=
  fun operands other closure values hother =>
    hcaller operands other closure values (honward.trans hother)

namespace Procedure

variable {repository : Repository} {operands : Operands} {origin : World} {caller : Caller}
  {arguments : List Argument} {target source : RecordRef}
  (hcaller : SoundCaller repository origin caller)
  (harguments : ∀ argument ∈ arguments, SoundArgument repository origin argument)

/-! ## Closures as arguments -/

theorem proceeds_expectClosure {value : Value} (hvalue : value.Sound repository origin)
    (purpose : String) :
    (labelled (value.expectClosure · purpose)).Proceeds repository operands origin
      fun world closure => AllSound repository world closure.body.groups :=
  proceeds_labelled fun _ _ _ honward hexpect => (hvalue.of_expectClosure hexpect).mono honward

theorem proceeds_expectClosures {values : List Value}
    (hvalues : ∀ value ∈ values, value.Sound repository origin) (purpose : String) :
    (values.mapM fun value => labelled (value.expectClosure · purpose)).Proceeds repository
      operands origin fun world closures => ∀ closure ∈ closures,
        AllSound repository world closure.body.groups :=
  proceeds_mapM (fun _ _ _ honward hbody => hbody.mono honward) fun value hvalue =>
    proceeds_expectClosure (hvalues value hvalue) purpose

/-! ## Work on payloads -/

include hcaller in
theorem proceeds_transform {closure : Closure}
    (hclosure : AllSound repository origin closure.body.groups) (number : Int) :
    (transform caller closure number).Proceeds repository operands origin fun _ _ => True := by
  have hcall := hcaller operands origin closure [.integer number] (World.Onward.refl _) hclosure
    (List.forall_mem_singleton.mpr (Value.Sound.of_no_groups _ _ rfl))
  refine hcall.andThen fun value => ?_
  cases value with
  | integer transformed => exact proceeds_done transformed
  | _ => exact proceeds_labels.andThen fun _ => proceeds_fail _

include hcaller in
theorem proceeds_validate {closure : Closure}
    (hclosure : AllSound repository origin closure.body.groups) (payload : List Int) :
    (validate caller closure payload).Proceeds repository operands origin fun _ _ => True := by
  have hpayload : (Value.array (payload.map .integer)).Sound repository origin := by
    refine Value.Sound.array_iff.mpr fun item hitem => ?_
    obtain ⟨number, -, rfl⟩ := List.mem_map.mp hitem
    exact Value.Sound.of_no_groups _ _ rfl
  have hcall := hcaller operands origin closure [.array (payload.map .integer)]
    (World.Onward.refl _) hclosure (List.forall_mem_singleton.mpr hpayload)
  exact hcall.andThen fun verdict => proceeds_plain _

theorem proceeds_transformPayload {transformers : List (Int → Eval Int)}
    (htransformers : ∀ transformer ∈ transformers, ∀ number,
      (transformer number).Proceeds repository operands origin fun _ _ => True)
    (payload : List Int) :
    (transformPayload transformers payload).Proceeds repository operands origin
      fun _ _ => True := by
  induction payload generalizing transformers with
  | nil => cases transformers <;> exact proceeds_done []
  | cons number rest ih =>
    cases transformers with
    | nil => exact proceeds_done _
    | cons transformer others =>
      refine (htransformers transformer List.mem_cons_self number).andThen fun transformed => ?_
      have hrest := ih fun other hother => htransformers other (List.mem_cons_of_mem _ hother)
      exact hrest.andThen fun _ => proceeds_done _

/-! ## Work on one target -/

theorem proceeds_editLinks {transformers : List (Int → Eval Int)} {accepts : List Int → Eval Bool}
    (htarget : target ∈ operands.targets) (hheld : origin.pool.Holds target)
    (htransformers : ∀ transformer ∈ transformers, ∀ number,
      (transformer number).Proceeds repository operands origin fun _ _ => True)
    (haccepts : ∀ payload,
      (accepts payload).Proceeds repository operands origin fun _ _ => True)
    (links : List Link) :
    (editLinks target transformers accepts links).Proceeds repository operands origin
      fun _ _ => True := by
  induction links with
  | nil => exact proceeds_done 0
  | cons link rest ih =>
    refine (haccepts link.payload).andThen fun accepted => ?_
    cases accepted with
    | false => exact ih
    | true =>
      refine (proceeds_transformPayload htransformers link.payload).andThen fun payload => ?_
      refine (proceeds_edit (Work.Edits.relink { link with payload := payload }) htarget
        hheld).andThen fun _ => ?_
      exact ih.andThen fun _ => proceeds_done _

theorem proceeds_editCategory {transformers : List (Int → Eval Int)}
    {accepts : List Int → Eval Bool} (category : String)
    (htarget : target ∈ operands.targets) (hheld : origin.pool.Holds target)
    (htransformers : ∀ transformer ∈ transformers, ∀ number,
      (transformer number).Proceeds repository operands origin fun _ _ => True)
    (haccepts : ∀ payload,
      (accepts payload).Proceeds repository operands origin fun _ _ => True) :
    (editCategory target category transformers accepts).Proceeds repository operands origin
      fun _ _ => True :=
  (proceeds_record target).andThen fun _ =>
    proceeds_editLinks htarget hheld htransformers haccepts _

include hcaller in
theorem proceeds_validatorArgument {argument : Nat → Eval Value}
    (hargument : ∀ position, (argument position).Proceeds repository operands origin
      (Value.Sound repository)) :
    (validatorArgument caller arguments argument).Proceeds repository operands origin
      fun world accepts => ∀ payload,
        (accepts payload).Proceeds repository operands world fun _ _ => True := by
  unfold validatorArgument
  split
  · exact proceeds_pure fun world _ payload => proceeds_done true
  · refine (hargument 2).bind fun value between hbetween hvalue => ?_
    refine (proceeds_expectClosure hvalue "EditExtraData validator").bind
      fun closure last hlast hbody => proceeds_pure fun world hworld => ?_
    have honward : origin.Onward world := hbetween.trans (hlast.trans hworld)
    exact proceeds_validate (hcaller.later honward) (hbody.mono hworld)

include hcaller harguments in
theorem proceeds_onTarget (procedure : Procedure) (htarget : target ∈ operands.targets)
    (hheld : origin.pool.Holds target) :
    (procedure.onTarget caller arguments target).Proceeds repository operands origin
      fun _ _ => True := by
  have hargument := fun position =>
    soundArgument_argument harguments procedure.name position operands (some target)
  unfold onTarget
  cases procedure with
  | setField =>
    refine (hargument 0).andThen fun first => (proceeds_plain _).andThen fun name => ?_
    refine (hargument 1).andThen fun value => proceeds_labels.andThen fun labels => ?_
    exact proceeds_edit (Work.Edits.setField _ _) htarget hheld
  | forceSetField =>
    refine (hargument 0).andThen fun first => (proceeds_plain _).andThen fun name => ?_
    refine (hargument 1).andThen fun value => ?_
    refine (hargument 2).andThen fun third => (proceeds_plain _).andThen fun declared => ?_
    refine proceeds_labels.andThen fun labels => ?_
    exact proceeds_edit (Work.Edits.forceSetField _ _ _) htarget hheld
  | deleteRecords => exact proceeds_edit Work.Edits.deleteRecord htarget hheld
  | editExtraData =>
    refine (hargument 0).andThen fun first => (proceeds_plain _).andThen fun category => ?_
    refine (hargument 1).bind fun second between hbetween hsecond => ?_
    have hitems : (labelled (second.expectArray · "EditExtraData transformers")).Proceeds
        repository operands between
        fun world items => ∀ item ∈ items, item.Sound repository world :=
      proceeds_labelled fun world items labels honward hexpect item hitem =>
        (hsecond.of_expectArray hexpect item hitem).mono honward
    refine hitems.bind fun items later hlater hsound => ?_
    refine (proceeds_expectClosures hsound "EditExtraData transformer").bind
      fun closures last hlast hbodies => ?_
    have honward : origin.Onward last := (hbetween.trans hlater).trans hlast
    refine (proceeds_validatorArgument (hcaller.later honward) fun position =>
      (hargument position).later honward).bind fun accepts final hfinal haccepts => ?_
    have htransformers : ∀ transformer ∈ closures.map (transform caller), ∀ number,
        (transformer number).Proceeds repository operands final fun _ _ => True := by
      intro transformer htransformer number
      obtain ⟨closure, hclosure, rfl⟩ := List.mem_map.mp htransformer
      exact (proceeds_transform (hcaller.later honward) (hbodies closure hclosure) number).later
        hfinal
    have hheldFinal := (honward.trans hfinal).retains.holds target hheld
    exact (proceeds_editCategory category htarget hheldFinal htransformers haccepts).andThen
      fun _ => proceeds_done _
  | _ => exact proceeds_fail _

/-! ## Work on a target and a source -/

theorem proceeds_payloadArgument {argument : Nat → Eval Value}
    (hargument : ∀ position, (argument position).Proceeds repository operands origin
      (Value.Sound repository)) (position : Nat) :
    (payloadArgument arguments argument position).Proceeds repository operands origin
      fun _ _ => True := by
  unfold payloadArgument
  split
  · exact proceeds_done none
  · exact (hargument position).andThen fun value => (proceeds_plain _).andThen fun payload =>
      proceeds_done (some payload)

include harguments in
theorem proceeds_linkPair (procedure : Procedure) (forced : Bool)
    (htarget : target ∈ operands.targets) (hsource : source ∈ operands.sources)
    (hheld : origin.pool.Holds target) :
    (procedure.linkPair arguments target source forced).Proceeds repository operands origin
      fun _ _ => True := by
  have hargument := fun position =>
    soundArgument_argument harguments procedure.name position operands (some target)
  refine (hargument 1).andThen fun first => (proceeds_plain _).andThen fun category => ?_
  refine (proceeds_payloadArgument hargument 2).andThen fun payload => ?_
  exact proceeds_link category payload forced htarget hsource hheld

include hcaller harguments

theorem proceeds_setFromSource (procedure : Procedure) (htarget : target ∈ operands.targets)
    (hheld : origin.pool.Holds target) :
    (procedure.setFromSource caller arguments target source).Proceeds repository operands origin
      fun _ _ => True := by
  have hargument := fun position record =>
    soundArgument_argument harguments procedure.name position operands record
  unfold setFromSource
  refine (hargument 1 (some target)).andThen fun first => (proceeds_plain _).andThen fun name => ?_
  refine (proceeds_record target).andThen fun before => ?_
  split
  · exact proceeds_fail_bind _ _
  refine (hargument 2 (some source)).bind fun third between hbetween hthird => ?_
  refine (proceeds_expectClosure hthird "SetFieldFromOther lambda").bind
    fun closure last hlast hbody => ?_
  refine (proceeds_record target).bind fun current final hfinal _ => ?_
  have hvalue : (settle (Value.ofPlain ((current.field? name).getD .null))).Proceeds repository
      operands final (Value.Sound repository) :=
    proceeds_settle fun world value _ hplain =>
      Value.Sound.of_no_groups repository world (Value.groups_ofPlain hplain)
  refine hvalue.bind fun value world hworld hsound => ?_
  have honward : origin.Onward world := hbetween.trans (hlast.trans (hfinal.trans hworld))
  have hcall := hcaller operands world closure [value] honward (hbody.mono (hfinal.trans hworld))
    (List.forall_mem_singleton.mpr hsound)
  refine hcall.andThen fun result => proceeds_labels.andThen fun labels => ?_
  exact proceeds_edit (Work.Edits.setField _ _) htarget (honward.retains.holds target hheld)

theorem proceeds_onPair (procedure : Procedure) (htarget : target ∈ operands.targets)
    (hsource : source ∈ operands.sources) (hheld : origin.pool.Holds target) :
    (procedure.onPair caller arguments target source).Proceeds repository operands origin
      fun _ _ => True := by
  cases procedure with
  | addExtraData => exact proceeds_linkPair harguments _ false htarget hsource hheld
  | forceAddExtraData => exact proceeds_linkPair harguments _ true htarget hsource hheld
  | setFieldFromOther => exact proceeds_setFromSource hcaller harguments _ htarget hheld
  | _ => exact proceeds_fail _

omit hcaller harguments

/-! ## Whole procedures -/

/-- A change to the mod that keeps its name and records leads on. -/
theorem onward_changeMod (alter : Mod → Mod) (halter : ∀ pool mod, Mod.Onward pool mod (alter mod))
    (world : World) :
    world.Onward ((onActive (modify fun bench : Workbench =>
      { bench with mod := alter bench.mod } : Work PUnit)).run world).2 := by
  obtain hsame | ⟨result, hyields⟩ := onActive_cases (modify fun bench : Workbench =>
      { bench with mod := alter bench.mod } : Work PUnit) world
  · rw [hsame]
    exact World.Onward.refl world
  · generalize ((onActive _).run world).2 = after at hyields ⊢
    obtain ⟨mod, bench, hmod, hbench, rfl⟩ := yields_onActive.mp hyields
    obtain rfl := Work.yields_modify.mp hbench
    refine ⟨Pool.Retains.refl _, fun other hother => ⟨alter mod, rfl, ?_⟩⟩
    obtain rfl := Option.some.inj (hmod.symm.trans hother)
    exact halter _ _

theorem onward_conclude (procedure : Procedure) (targets : Group) (sources : Option Group)
    (mod : Mod) (applied : Nat) (world : World) :
    world.Onward ((procedure.conclude targets sources mod applied).run world).2 := by
  have hrest : ∀ between : World, between.Onward ((do
      onActive (Work.addDependencies (headerEntries targets mod))
      note .debug .procedures (procedure.name ++ " applied " ++ integerText applied ++
        " time(s)") : Eval Unit).run between).2 := by
    intro between
    refine onward_bind ?_ fun _ later _ => ?_
    · exact onward_changeMod (Mod.addDependencies · (headerEntries targets mod))
        (fun _ _ => ⟨rfl, List.Subset.refl _, fun _ hown _ => Or.inl hown⟩) between
    · exact World.Onward.of_retains (Pool.Retains.refl _) rfl
  unfold conclude
  cases sources with
  | none => exact hrest world
  | some group =>
    refine onward_bind ?_ fun _ between _ => hrest between
    exact onward_changeMod (Mod.addReferences · (headerEntries group mod))
      (fun _ _ => ⟨rfl, List.Subset.refl _, fun _ hown _ => Or.inl hown⟩) world

theorem onward_of_conclude {procedure : Procedure} {targets : Group} {sources : Option Group}
    {mod : Mod} {applied : Nat} {worked after : World}
    (hend : (procedure.conclude targets sources mod applied).Yields worked () after) :
    worked.Onward after := by
  have hconclude := onward_conclude procedure targets sources mod applied worked
  rwa [hend] at hconclude

include harguments

theorem proceeds_sourceGroup (procedure : Procedure) :
    (procedure.sourceGroup arguments).Proceeds repository operands origin
      fun world sources => sources.Sound repository world := by
  refine (soundArgument_argument harguments _ _ operands none).bind
    fun value between _ hvalue => ?_
  exact proceeds_labelled fun world group labels honward hexpect =>
    (hvalue.of_expectGroup hexpect).mono honward

variable {procedure : Procedure} {targets : Group}
  (htargets : targets.Sound repository origin)

include hcaller htargets

theorem proceeds_onTargets (procedure : Procedure) :
    (targets.records.forM (procedure.onTarget caller arguments)).Proceeds repository
      ⟨targets.records, []⟩ origin fun _ _ => True :=
  proceeds_forM fun _ htarget =>
    proceeds_onTarget hcaller harguments procedure htarget (htargets.held htarget)

theorem proceeds_onPairs (procedure : Procedure) {between : World} {sources : Group}
    {pairwise : Bool} {paired : List (RecordRef × RecordRef)} (honward : origin.Onward between)
    (hpaired : pairs targets sources pairwise = .ok paired) :
    (paired.forM fun pair => procedure.onPair caller arguments pair.1 pair.2).Proceeds
      repository ⟨targets.records, sources.records⟩ between fun _ _ => True := by
  refine proceeds_forM fun pair hpair => ?_
  obtain ⟨htarget, hsource⟩ := mem_pairs hpaired hpair
  exact proceeds_onPair (hcaller.later honward)
    (fun argument hargument => (harguments argument hargument).later honward) procedure
    htarget hsource (honward.retains.holds _ (htargets.held htarget))

variable (pairwise : Bool)

theorem proceeds_apply_of_one (hone : procedure.hasSource = false) :
    (procedure.apply caller arguments targets pairwise).Proceeds repository operands origin
      fun _ _ => True := by
  have hwork := proceeds_onTargets hcaller harguments htargets procedure
  rw [apply_of_one _ _ _ _ hone]
  constructor
  · intro before honward
    refine onward_bind ?_ fun mod between hmod => ?_
    · rw [run_requireActive]
      exact World.Onward.refl before
    · obtain ⟨-, rfl⟩ := yields_requireActive.mp hmod
      exact onward_bind (hwork.onward before honward) fun _ worked _ => onward_conclude ..
  · intro before result after honward hyields
    obtain ⟨mod, _, hmod, hrest⟩ := yields_bind.mp hyields
    obtain ⟨hactive, rfl⟩ := yields_requireActive.mp hmod
    obtain ⟨_, worked, hdone, hend⟩ := yields_bind.mp hrest
    obtain ⟨-, deeds, hcourse, hsound⟩ := hwork.course before _ worked honward hdone
    have hworked := hwork.onward_of_yields honward hdone
    have hlast := onward_of_conclude hend
    have happlied : Course operands (procedure.apply caller arguments targets pairwise) before
        _ () after := Course.applyOne hone hactive hcourse hend
    rw [apply_of_one _ _ _ _ hone] at happlied
    refine ⟨trivial, _, happlied, ?_⟩
    rw [List.flatMap_append]
    refine (hsound.mono hlast).append (AllSound.singleton ?_)
    exact htargets.mono (honward.trans (hworked.trans hlast))

theorem proceeds_apply_of_two (htwo : procedure.hasSource = true) :
    (procedure.apply caller arguments targets pairwise).Proceeds repository operands origin
      fun _ _ => True := by
  have hsources : (procedure.sourceGroup arguments).Proceeds repository operands origin
      fun world sources => sources.Sound repository world :=
    proceeds_sourceGroup harguments procedure
  rw [apply_of_two _ _ _ _ htwo]
  constructor
  · intro before honward
    refine onward_bind ?_ fun mod later hmod => ?_
    · rw [run_requireActive]
      exact World.Onward.refl before
    obtain ⟨-, rfl⟩ := yields_requireActive.mp hmod
    refine onward_bind (hsources.onward before honward) fun sources between hgiven => ?_
    have hbetween := honward.trans (hsources.onward_of_yields honward hgiven)
    refine onward_bind ?_ fun paired last hpairs => ?_
    · cases pairs targets sources pairwise <;> exact World.Onward.refl between
    obtain ⟨hpaired, rfl⟩ := yields_settle.mp hpairs
    have hwork := proceeds_onPairs hcaller harguments htargets procedure hbetween hpaired
    exact onward_bind (hwork.onward between (World.Onward.refl _))
      fun _ worked _ => onward_conclude ..
  · intro before result after honward hyields
    obtain ⟨mod, _, hmod, hrest⟩ := yields_bind.mp hyields
    obtain ⟨hactive, rfl⟩ := yields_requireActive.mp hmod
    obtain ⟨sources, between, hgiven, hrest⟩ := yields_bind.mp hrest
    obtain ⟨paired, _, hpairs, hrest⟩ := yields_bind.mp hrest
    obtain ⟨hpaired, rfl⟩ := yields_settle.mp hpairs
    obtain ⟨_, worked, hdone, hend⟩ := yields_bind.mp hrest
    obtain ⟨hgroup, first, hfirst, hfirstSound⟩ :=
      hsources.course before sources between honward hgiven
    have hbetween := hsources.onward_of_yields honward hgiven
    have hwork := proceeds_onPairs hcaller harguments htargets procedure
      (honward.trans hbetween) hpaired
    obtain ⟨-, second, hsecond, hsecondSound⟩ :=
      hwork.course between _ worked (World.Onward.refl _) hdone
    have hworked := hwork.onward_of_yields (World.Onward.refl _) hdone
    have hlast := onward_of_conclude hend
    have happlied : Course operands (procedure.apply caller arguments targets pairwise) before
        _ () after := Course.applyTwo htwo hactive hfirst hpaired hsecond hend
    rw [apply_of_two _ _ _ _ htwo] at happlied
    refine ⟨trivial, _, happlied, ?_⟩
    rw [List.flatMap_append, List.flatMap_append]
    refine ((hfirstSound.mono (hworked.trans hlast)).append (hsecondSound.mono hlast)).append ?_
    have htargetsLast := htargets.mono (honward.trans (hbetween.trans (hworked.trans hlast)))
    have hsourcesLast := hgroup.mono (hworked.trans hlast)
    exact (AllSound.singleton htargetsLast).append (AllSound.singleton hsourcesLast)

/-- A procedure that is applied to a sound group proceeds soundly. -/
theorem proceeds_apply :
    (procedure.apply caller arguments targets pairwise).Proceeds repository operands origin
      fun _ _ => True := by
  cases hsource : procedure.hasSource with
  | false => exact proceeds_apply_of_one hcaller harguments htargets pairwise hsource
  | true => exact proceeds_apply_of_two hcaller harguments htargets pairwise hsource

end Procedure

end Patchwork
