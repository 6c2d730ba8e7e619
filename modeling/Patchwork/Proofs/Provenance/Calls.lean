import Patchwork.Evaluation.Calls
import Patchwork.Proofs.Provenance.Proceedings

/-!
# Calls of built-ins proceed soundly

Functions, predicates and commands proceed soundly if their arguments do.  The groups in
what a function gives are sound: they come from an argument, or they are clones.
-/

namespace Patchwork

open Eval

/-- A value with no groups but sound ones. -/
def Value.Sound (repository : Repository) (world : World) (value : Value) : Prop :=
  AllSound repository world value.groups

/-- An argument that proceeds soundly whatever the current record and the operands are, and
gives sound values. -/
def Eval.SoundArgument (repository : Repository) (origin : World) (argument : Argument) : Prop :=
  ∀ operands record, (argument record).Proceeds repository operands origin
    (Value.Sound repository)

section

variable {Result Other : Type} {repository : Repository} {operands : Operands}
  {origin world last : World} {value : Value} {items : List Value} {group : Group}
  {gives : World → Result → Prop} {givesNext : World → Other → Prop}

namespace Value.Sound

theorem mono (hsound : value.Sound repository world) (honward : world.Onward last) :
    value.Sound repository last :=
  AllSound.mono hsound honward

theorem of_no_groups (repository : Repository) (world : World) (hnone : value.groups = []) :
    value.Sound repository world := by
  rw [Value.Sound, hnone]
  exact AllSound.nil _ _

theorem array_iff : (Value.array items).Sound repository world ↔
    ∀ item ∈ items, item.Sound repository world := by
  change AllSound repository world (itemGroups items) ↔ _
  rw [itemGroups_eq]
  constructor
  · intro hsound item hitem
    exact hsound.subset fun _ hgroup => List.mem_flatMap.mpr ⟨item, hitem, hgroup⟩
  · intro hsound group hgroup
    obtain ⟨item, hitem, hinner⟩ := List.mem_flatMap.mp hgroup
    exact hsound item hitem group hinner

theorem group_iff : (Value.group group).Sound repository world ↔
    group.Sound repository world :=
  ⟨fun hsound => hsound group (List.mem_singleton_self group), AllSound.singleton⟩

theorem of_expectGroup {labels : Labels} {purpose : String}
    (hsound : value.Sound repository world)
    (hexpect : value.expectGroup labels purpose = .ok group) : group.Sound repository world := by
  cases value <;> cases hexpect
  exact group_iff.mp hsound

theorem of_expectArray {labels : Labels} {purpose : String}
    (hsound : value.Sound repository world)
    (hexpect : value.expectArray labels purpose = .ok items) :
    ∀ item ∈ items, item.Sound repository world := by
  cases value <;> cases hexpect
  exact array_iff.mp hsound

theorem of_expectClosure {labels : Labels} {purpose : String} {closure : Closure}
    (hsound : value.Sound repository world)
    (hexpect : value.expectClosure labels purpose = .ok closure) :
    AllSound repository world closure.body.groups := by
  cases value <;> cases hexpect
  exact hsound

end Value.Sound

theorem Value.groups_ofNumber (number : Binary64) : (Value.ofNumber number).groups = [] := by
  unfold Value.ofNumber
  split <;> rfl

mutual

theorem Value.groups_ofPlain {plain : Plain} {value : Value}
    (hvalue : Value.ofPlain plain = .ok value) : value.groups = [] := by
  cases plain with
  | list items =>
    rw [Value.ofPlain] at hvalue
    cases hitems : Value.ofPlainItems items with
    | error fault =>
      rw [hitems] at hvalue
      cases hvalue
    | ok values =>
      rw [hitems] at hvalue
      cases hvalue
      exact groups_ofPlainItems hitems
  | _ =>
    cases hvalue
    try rfl

theorem Value.groups_ofPlainItems {plains : List Plain} {values : List Value}
    (hvalues : Value.ofPlainItems plains = .ok values) : itemGroups values = [] := by
  cases plains with
  | nil =>
    cases hvalues
    rfl
  | cons plain rest =>
    rw [Value.ofPlainItems] at hvalues
    cases hfirst : Value.ofPlain plain with
    | error fault =>
      rw [hfirst] at hvalues
      cases hvalues
    | ok first =>
      cases hrest : Value.ofPlainItems rest with
      | error fault =>
        rw [hfirst, hrest] at hvalues
        cases hvalues
      | ok others =>
        rw [hfirst, hrest] at hvalues
        cases hvalues
        rw [itemGroups, groups_ofPlain hfirst, groups_ofPlainItems hrest, List.append_nil]

end

end

namespace Eval

variable {Result Other : Type} {repository : Repository} {operands : Operands}
  {origin last : World} {evaluation : Eval Result}
  {gives : World → Result → Prop} {givesNext : World → Other → Prop}

/-! ## Steps with nothing to remember -/

theorem proceeds_plain (compute : Labels → Except Fault Result) :
    (labelled compute).Proceeds repository operands origin fun _ _ => True :=
  proceeds_labelled fun _ _ _ _ _ => trivial

theorem proceeds_done (result : Result) :
    (pure result : Eval Result).Proceeds repository operands origin fun _ _ => True :=
  proceeds_pure fun _ _ => trivial

theorem proceeds_fail_bind (fault : EvaluationFault) (next : Result → Eval Other) :
    Proceeds repository operands origin (fail fault >>= next) givesNext :=
  proceeds_of_quiet (fun before _ => World.Quiet.refl before) fun _ _ _ _ hyields => by
    obtain ⟨_, _, hfailed, -⟩ := yields_bind.mp hyields
    exact absurd hfailed not_yields_fail

/-- A plain result of a function. -/
theorem proceeds_value {value : Value} (hnone : value.groups = []) :
    (pure value : Eval Value).Proceeds repository operands origin (Value.Sound repository) :=
  proceeds_pure fun world _ => Value.Sound.of_no_groups repository world hnone

theorem proceeds_nextMark :
    nextMark.Proceeds repository operands origin fun _ _ => True :=
  proceeds_of_quiet (fun _ _ => World.Quiet.of_kept rfl (Pool.KeptIn.refl _) rfl)
    fun _ _ _ _ _ => trivial

theorem proceeds_mark {value : Value} (hvalue : value.Sound repository origin) :
    (mark value).Proceeds repository operands origin (Value.Sound repository) := by
  unfold mark
  split
  · exact proceeds_nextMark.andThen fun _ => proceeds_value rfl
  · exact proceeds_pure fun _ honward => hvalue.mono honward

/-- A sound value in front of sound ones. -/
theorem Proceeds.cons {first : Eval Value} {others : Eval (List Value)}
    (hfirst : first.Proceeds repository operands origin (Value.Sound repository))
    (hothers : others.Proceeds repository operands origin
      fun world values => ∀ value ∈ values, value.Sound repository world) :
    (do return (← first) :: (← others) : Eval (List Value)).Proceeds repository operands origin
      fun world values => ∀ value ∈ values, value.Sound repository world := by
  refine hfirst.bind fun value between hbetween hvalue => ?_
  refine (hothers.later hbetween).bind fun values last hlast hvalues => ?_
  refine proceeds_pure fun world hworld other hother => ?_
  rcases List.mem_cons.mp hother with rfl | hrest
  · exact hvalue.mono (hlast.trans hworld)
  · exact (hvalues other hrest).mono hworld

/-- A drawn number. -/
theorem proceeds_draw {Number : Type} (draw : Draws → Number × Draws) {value : Number → Value}
    (hnone : ∀ number, (value number).groups = []) :
    (do
      let world ← get
      let (number, draws) := draw world.draws
      set { world with draws := draws }
      return value number : Eval Value).Proceeds repository operands origin
        (Value.Sound repository) := by
  refine proceeds_of_quiet
    (fun before _ => World.Quiet.of_kept rfl (Pool.KeptIn.refl _) rfl) ?_
  intro before result after _ hyields
  cases hyields
  exact Value.Sound.of_no_groups _ _ (hnone _)

theorem run_requireActive (world : World) : (requireActive.run world).2 = world := by
  have hget : (get : Eval World).run world = (.ok world, world) := rfl
  rw [requireActive, run_bind, hget]
  cases hactive : world.active <;> simp only [hactive] <;> rfl

theorem proceeds_requireActive :
    requireActive.Proceeds repository operands origin fun world mod => world.active = some mod := by
  refine proceeds_of_quiet (fun before _ => ?_) fun before mod after _ hyields => ?_
  · rw [run_requireActive]
    exact World.Quiet.refl before
  · obtain ⟨hactive, rfl⟩ := yields_requireActive.mp hyields
    exact hactive

theorem SoundArgument.later {argument : Argument}
    (hargument : SoundArgument repository origin argument) (honward : origin.Onward last) :
    SoundArgument repository last argument :=
  fun operands record => (hargument operands record).later honward

theorem soundArgument_argument {arguments : List Argument}
    (harguments : ∀ argument ∈ arguments, SoundArgument repository origin argument)
    (name : String) (position : Nat) :
    SoundArgument repository origin (Eval.argument name arguments position) := by
  intro operands record
  unfold Eval.argument
  cases hargument : arguments[position]? with
  | none => exact proceeds_fail _
  | some argument => exact harguments argument (List.mem_of_getElem? hargument) operands record

end Eval

variable {repository : Repository} {operands : Operands} {origin : World}

theorem proceeds_requireRecord (name : String) (record : Option RecordRef) :
    (requireRecord name record).Proceeds repository operands origin fun _ _ => True := by
  cases record with
  | none => exact proceeds_fail _
  | some ref => exact proceeds_done ref

/-! ## Functions -/

namespace Function

theorem proceeds_numbers (purpose : String) (value : Value) :
    (numbers purpose value).Proceeds repository operands origin fun _ _ => True := by
  refine (proceeds_plain _).andThen fun items => ?_
  have hnumbers : (items.mapM fun item => labelled item.toFloat).Proceeds repository operands
      origin fun _ _ => True :=
    (proceeds_mapM (fun _ _ _ _ _ => trivial) fun item _ => proceeds_plain _).mono
      fun _ _ _ _ => trivial
  split
  · exact proceeds_fail_bind _ _
  · exact hnumbers

/-- Clones are new records of the mod being patched, at new places. -/
theorem quiet_cloneRecord (repository : Repository) {ref : RecordRef} {count : Int}
    {clones : List RecordRef} {before after : World}
    (hyields : (onActive (Work.cloneRecord ref count)).Yields before clones after) :
    before.Quiet after ∧ ∀ mod, before.active = some mod → repository.Loaded before.pool →
      Group.Sound repository after ⟨clones.map (Member.mk mod.name)⟩ := by
  obtain ⟨mod, bench, hmod, hbench, rfl⟩ := yields_onActive.mp hyields
  obtain ⟨text, between, hclones, rfl⟩ := Work.clones_cloneRecord hbench
  have hlater : between.mod = { mod with records := mod.records ++ clones } := hclones.mod
  constructor
  · constructor
    · refine ⟨hclones.kept.retains, fun other hother => ⟨between.mod, rfl, ?_⟩⟩
      obtain rfl := Option.some.inj (hmod.symm.trans hother)
      rw [hlater]
      exact ⟨rfl, List.Subset.refl _, fun own hown _ => Or.inl (List.mem_append_left _ hown)⟩
    · intro other hother
      obtain rfl := Option.some.inj (hmod.symm.trans hother)
      refine ⟨between.mod, rfl, by rw [hlater], by rw [hlater], fun own hown => ?_⟩
      rw [hlater] at hown
      refine (List.mem_append.mp hown).imp_right fun hclone => ?_
      exact ⟨(hclones.fresh own hclone).2, (hclones.of_mem hclone).2.1⟩
    · exact fun other hheld => by rw [(hclones.kept other hheld).2]
    · exact World.reports_push (congrArg (Array.push · _) hclones.journal) Source.noConfusion
  · intro other hother hloaded
    obtain rfl := Option.some.inj (hmod.symm.trans hother)
    constructor
    · intro member hmember
      obtain ⟨clone, hclone, rfl⟩ := List.mem_map.mp hmember
      obtain ⟨hfresh, hheld⟩ := hclones.fresh clone hclone
      obtain ⟨hname, hnew, -⟩ := hclones.of_mem hclone
      have hown : clone ∈ between.mod.records := by
        rw [hlater]
        exact List.mem_append_right _ hclone
      exact {
        held := hheld
        mod := hname
        isNew := hnew
        apart := fun hplace => hfresh (hloaded.held clone hplace)
        origin := Or.inr ⟨between.mod, rfl, Or.inl ⟨hown, hnew⟩⟩ }
    · rw [List.map_map]
      exact hclones.distinct

theorem proceeds_cloneGroup (group : Group) (count : Int)
    (hloaded : repository.Loaded origin.pool) :
    (cloneGroup group count).Proceeds repository operands origin (Value.Sound repository) := by
  unfold cloneGroup
  split
  · rename_i member _
    refine proceeds_requireActive.bind fun mod between hbetween hactive => ?_
    have hclones : (onActive (Work.cloneRecord member.record count)).Proceeds repository operands
        between fun world clones =>
          Group.Sound repository world ⟨clones.map (Member.mk mod.name)⟩ := by
      refine proceeds_of_quiet (fun before _ => ?_) fun before clones after honward hyields => ?_
      · obtain hsame | ⟨clones, hyields⟩ := onActive_cases (Work.cloneRecord member.record count)
          before
        · rw [hsame]
          exact World.Quiet.refl before
        · exact (quiet_cloneRecord repository hyields).1
      · obtain ⟨later, hlater, hsame⟩ := honward.active mod hactive
        have hsound := (quiet_cloneRecord repository hyields).2 later hlater
          (hloaded.mono (hbetween.trans honward).retains)
        rwa [hsame.name] at hsound
    exact hclones.bind fun clones _ _ hsound => proceeds_pure fun world honward =>
      Value.Sound.group_iff.mpr (hsound.mono honward)
  · exact proceeds_fail _

variable {arguments : List Argument}
  (harguments : ∀ argument ∈ arguments, SoundArgument repository origin argument)

include harguments

theorem proceeds_result (hloaded : repository.Loaded origin.pool) (function : Function)
    (record : Option RecordRef) :
    (function.result record arguments).Proceeds repository operands origin
      (Value.Sound repository) := by
  have hargument := fun position =>
    soundArgument_argument harguments function.name position operands record
  unfold result
  cases function with
  | getField =>
    refine (proceeds_requireRecord _ record).andThen fun ref => ?_
    refine (hargument 0).andThen fun value => (proceeds_plain _).andThen fun name => ?_
    refine (proceeds_record ref).andThen fun current => ?_
    split
    · exact proceeds_fail _
    · exact proceeds_settle fun world result _ hresult =>
        Value.Sound.of_no_groups repository world (Value.groups_ofPlain hresult)
  | toInt | toFloat | count =>
    exact (hargument 0).andThen fun value => (proceeds_plain _).andThen fun _ =>
      proceeds_value rfl
  | min | max =>
    exact (hargument 0).andThen fun value => (proceeds_numbers _ value).andThen fun _ =>
      proceeds_value (Value.groups_ofNumber _)
  | arrIndex =>
    refine (hargument 0).andThen fun first => (proceeds_plain _).andThen fun items => ?_
    refine (hargument 1).andThen fun second => (proceeds_plain _).andThen fun position => ?_
    dsimp only
    split
    · exact proceeds_fail_bind _ _
    split
    · exact proceeds_fail _
    split
    · exact (proceeds_plain _).andThen fun _ => proceeds_value rfl
    · exact proceeds_labels.andThen fun _ => proceeds_fail _
  | randomFloat => exact proceeds_draw Draws.fraction fun _ => rfl
  | randomBetweenInts =>
    refine (hargument 0).andThen fun first => (proceeds_plain _).andThen fun low => ?_
    refine (hargument 1).andThen fun second => (proceeds_plain _).andThen fun high => ?_
    dsimp only
    split
    · exact proceeds_fail_bind _ _
    split
    · exact proceeds_value rfl
    · exact proceeds_draw (fun draws => draws.between low high) fun _ => rfl
  | containsExact | containsFolded =>
    refine (hargument 0).andThen fun first => (proceeds_plain _).andThen fun text => ?_
    refine (hargument 1).andThen fun second => (proceeds_plain _).andThen fun part => ?_
    exact proceeds_value rfl
  | clone =>
    refine (hargument 0).andThen fun first => (proceeds_plain _).andThen fun group => ?_
    refine (hargument 1).andThen fun second => (proceeds_plain _).andThen fun count => ?_
    exact proceeds_cloneGroup group count hloaded

theorem proceeds_apply (hloaded : repository.Loaded origin.pool) (function : Function)
    (record : Option RecordRef) :
    (function.apply record arguments).Proceeds repository operands origin
      (Value.Sound repository) :=
  (proceeds_result harguments hloaded function record).bind fun _ _ _ hresult =>
    proceeds_mark hresult

end Function

/-! ## Predicates -/

namespace Predicate

variable {arguments : List Argument}
  (harguments : ∀ argument ∈ arguments, SoundArgument repository origin argument)

theorem proceeds_linkArguments {argument : Nat → Eval Value}
    (hargument : ∀ position, (argument position).Proceeds repository operands origin
      (Value.Sound repository)) :
    (linkArguments arguments argument).Proceeds repository operands origin fun _ _ => True := by
  refine (hargument 0).andThen fun first => (proceeds_plain _).andThen fun group => ?_
  split
  · exact proceeds_done _
  refine (hargument 1).andThen fun second => (proceeds_plain _).andThen fun category => ?_
  split
  · exact proceeds_done _
  refine (hargument 2).andThen fun third => (proceeds_plain _).andThen fun payload => ?_
  exact proceeds_done _

theorem proceeds_testField (predicate : Predicate) (record : Option RecordRef)
    {argument : Nat → Eval Value}
    (hargument : ∀ position, (argument position).Proceeds repository operands origin
      (Value.Sound repository)) (test : Record → String → Bool) :
    (predicate.testField record argument test).Proceeds repository operands origin
      fun _ _ => True := by
  refine (proceeds_requireRecord _ record).andThen fun ref => ?_
  refine (hargument 0).andThen fun value => (proceeds_plain _).andThen fun name => ?_
  exact (proceeds_record ref).andThen fun _ => proceeds_done _

theorem proceeds_testLinks (predicate : Predicate) (record : Option RecordRef)
    {argument : Nat → Eval Value}
    (hargument : ∀ position, (argument position).Proceeds repository operands origin
      (Value.Sound repository))
    (test : Record → List Record → Option String → Option (List Int) → Bool) :
    (predicate.testLinks record arguments argument test).Proceeds repository operands origin
      fun _ _ => True := by
  refine (proceeds_requireRecord _ record).andThen fun ref => ?_
  refine (proceeds_linkArguments hargument).andThen fun linked => ?_
  exact proceeds_get.andThen fun _ => proceeds_done _

include harguments

theorem proceeds_apply (predicate : Predicate) (record : Option RecordRef) :
    (predicate.apply record arguments).Proceeds repository operands origin fun _ _ => True := by
  have hargument := fun position =>
    soundArgument_argument harguments predicate.name position operands record
  unfold apply
  cases predicate with
  | always | never => exact proceeds_done _
  | isRemoved =>
    refine (proceeds_requireRecord _ record).andThen fun ref => ?_
    exact (proceeds_record ref).andThen fun _ => proceeds_done _
  | isLinkOfAny | linksAny | linksAll => exact proceeds_testLinks _ record hargument _
  | _ => exact proceeds_testField _ record hargument _

end Predicate

/-! ## Commands -/

namespace Command

variable {arguments : List Argument}
  (harguments : ∀ argument ∈ arguments, SoundArgument repository origin argument)

include harguments

theorem proceeds_joinedArguments (record : Option RecordRef) :
    (joinedArguments record arguments).Proceeds repository operands origin fun _ _ => True := by
  have htext : ∀ argument ∈ arguments, (do
      return (← argument record).display (← labels) : Eval String).Proceeds repository operands
        origin fun _ _ => True := fun argument hargument =>
    (harguments argument hargument operands record).andThen fun value =>
      proceeds_labels.andThen fun _ => proceeds_done _
  exact (proceeds_mapM (fun _ _ _ _ _ => trivial) htext).andThen fun _ => proceeds_done _

theorem proceeds_apply (command : Command) (record : Option RecordRef) :
    (command.apply repository record arguments).Proceeds repository operands origin
      fun _ _ => True := by
  have hargument := fun position =>
    soundArgument_argument harguments command.name position operands record
  have hnote : ∀ level text, (note level .commands text).Proceeds repository operands origin
      fun _ _ => True := fun level text => proceeds_note level (by decide) text
  unfold apply
  cases command with
  | print | debug =>
    exact (proceeds_joinedArguments harguments record).andThen fun _ => hnote _ _
  | inspectRecord =>
    refine (hargument 0).andThen fun first => (proceeds_plain _).andThen fun group => ?_
    refine (hargument 1).andThen fun second => proceeds_labels.andThen fun labels => ?_
    refine proceeds_get.andThen fun world => ?_
    dsimp only
    split
    · exact proceeds_fail _
    · exact hnote _ _
  | showRecordEvolution =>
    refine (hargument 0).andThen fun first => proceeds_labels.andThen fun labels => ?_
    refine proceeds_get.andThen fun world => ?_
    dsimp only
    split
    · exact hnote _ _
    · exact proceeds_forM fun version _ => hnote _ _
  | stop =>
    exact (proceeds_note _ (by decide) _).andThen fun _ =>
      proceeds_modify (fun _ => rfl) (fun _ => rfl) fun _ => rfl

end Command

end Patchwork
