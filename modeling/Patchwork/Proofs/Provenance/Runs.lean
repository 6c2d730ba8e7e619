import Patchwork.Proofs.Provenance.Queries
import Patchwork.Proofs.Runs.Bindings
import Patchwork.Proofs.Runs.Outcomes

/-!
# Scripts proceed soundly

Whatever the lines of a script do, every group that is defined or that stands in a table
entry is sound after each of them: its records come from the mods they are listed under,
have different identifiers, and are none of the loaded mods' records.
-/

namespace Patchwork

open Agree.Computations (run_bind)

/-! ## Courses of runs -/

/-- A step of a run that gives a result, with the deeds done in its evaluations. -/
inductive Run.Course : {Result : Type} → Run Result → Patcher → List Deed → Result →
    Patcher → Prop
  | quiet {Result : Type} {step : Run Result} {before after : Patcher} {result : Result}
      (hyields : step.run before = (.ok result, after))
      (hquiet : before.world.Quiet after.world) : Course step before [] result after
  | bind {Result Other : Type} {step : Run Result} {next : Result → Run Other}
      {before between after : Patcher} {first second : List Deed} {given : Result}
      {result : Other} (hfirst : Course step before first given between)
      (hnext : Course (next given) between second result after) :
      Course (step >>= next) before (first ++ second) result after
  | evaluate {Result : Type} {evaluation : Setting → Eval Result} {before : Patcher}
      {world : World} {deeds : List Deed} {result : Result}
      (hcourse : Patchwork.Course {} (evaluation before.setting) before.world deeds result world) :
      Course (Run.evaluate evaluation) before deeds result { before with world := world }

/-- Lines of which none has failed, with the deeds done in them. -/
inductive Patcher.Course : Patcher → List String → List Deed → Patcher → Prop
  | done (patcher : Patcher) : Course patcher [] [] patcher
  | stopped {patcher : Patcher} (hstops : patcher.world.stopping = true) (lines : List String) :
      Course patcher lines [] patcher
  | blank {patcher after : Patcher} {raw : String} {rest : List String} {deeds : List Deed}
      (hrunning : patcher.world.stopping = false) (hblank : stripComment raw = "")
      (hrest : Course patcher rest deeds after) : Course patcher (raw :: rest) deeds after
  | line {patcher between after : Patcher} {raw : String} {rest : List String}
      {first second : List Deed} (hrunning : patcher.world.stopping = false)
      (hstatement : stripComment raw ≠ "")
      (hline : Run.Course (executeLine (stripComment raw)) patcher first () between)
      (hrest : Course between rest second after) :
      Course patcher (raw :: rest) (first ++ second) after

/-- The course of a step is one that the step takes. -/
theorem Run.Course.yields {Result : Type} {step : Run Result} {before after : Patcher}
    {deeds : List Deed} {result : Result} (hcourse : Course step before deeds result after) :
    step.run before = (.ok result, after) := by
  induction hcourse with
  | quiet hyields _ => exact hyields
  | bind _ _ ihfirst ihnext =>
    rw [run_bind, ihfirst]
    exact ihnext
  | evaluate hcourse => rw [run_evaluate, hcourse.yields]

/-- The course of some lines is the one that carrying them out takes, and none fails. -/
theorem Patcher.Course.executes {patcher after : Patcher} {lines : List String}
    {deeds : List Deed} (hcourse : patcher.Course lines deeds after) (number executed : Nat) :
    ∃ count, executeLines number executed lines patcher = ((count, none), after) := by
  induction hcourse generalizing number executed with
  | done patcher => exact ⟨executed, rfl⟩
  | stopped hstops lines => exact ⟨executed, executeLines_of_stopping _ _ _ hstops⟩
  | blank hrunning hblank _ ih =>
    obtain ⟨count, hrest⟩ := ih (number + 1) executed
    refine ⟨count, ?_⟩
    rw [executeLines_of_blank _ _ _ hrunning hblank, hrest]
  | line hrunning hstatement hline _ ih =>
    obtain ⟨count, hrest⟩ := ih (number + 1) (executed + 1)
    refine ⟨count, ?_⟩
    rw [executeLines_of_statement _ _ _ hrunning hstatement, hline.yields]
    exact hrest

/-! ## Steps of a run -/

/-- A patcher at a later point of a run. -/
structure Patcher.Leads (before after : Patcher) : Prop where
  repository : after.repository = before.repository
  onward : before.world.Onward after.world

/-- A patcher with sound groups only. -/
def Patcher.Sound (patcher : Patcher) : Prop :=
  patcher.setting.Sound patcher.world

theorem Patcher.Leads.refl (patcher : Patcher) : patcher.Leads patcher :=
  ⟨rfl, World.Onward.refl _⟩

theorem Patcher.Leads.trans {first second third : Patcher} (hfirst : first.Leads second)
    (hsecond : second.Leads third) : first.Leads third :=
  ⟨hsecond.repository.trans hfirst.repository, hfirst.onward.trans hsecond.onward⟩

theorem Patcher.Leads.sound {before after : Patcher} (hleads : before.Leads after)
    (hsound : before.Sound)
    (henvironment : AllSound before.repository after.world after.environment.groups) :
    after.Sound where
  loaded := by
    change after.repository.Loaded _
    rw [hleads.repository]
    exact hsound.loaded.mono hleads.onward.retains
  environment := by
    change AllSound after.repository _ _
    rw [hleads.repository]
    exact henvironment

namespace Run

variable {Result Other Item : Type}

/-- From a patcher with sound groups a step leads to one with sound groups, whether it fails
or not, and if it gives a result, then with a course whose deeds are about sound groups, and
what it gives has a property. -/
structure Proceeds (before : Patcher) (step : Run Result)
    (gives : Patcher → Result → Prop) : Prop where
  leads : before.Leads (step.run before).2
  sound : (step.run before).2.Sound
  course : ∀ result after, step.run before = (.ok result, after) → gives after result ∧
    ∃ deeds, Course step before deeds result after ∧
      AllSound before.repository after.world (deeds.flatMap Deed.groups)

variable {before : Patcher} {step : Run Result} {gives : Patcher → Result → Prop}
  {givesNext : Patcher → Other → Prop}

theorem Proceeds.bind {next : Result → Run Other} (hfirst : step.Proceeds before gives)
    (hnext : ∀ result between, before.Leads between → between.Sound → gives between result →
      (next result).Proceeds between givesNext) :
    Proceeds before (step >>= next) givesNext := by
  obtain ⟨hleads, hsound, hcourse⟩ := hfirst
  cases hrun : step.run before with
  | mk outcome between =>
    rw [hrun] at hleads hsound
    cases outcome with
    | error fault =>
      have hfails : (step >>= next).run before = (.error fault, between) := by
        rw [run_bind, hrun]
      refine ⟨?_, ?_, fun result after hyields => ?_⟩
      · rw [hfails]
        exact hleads
      · rw [hfails]
        exact hsound
      · rw [hfails] at hyields
        cases hyields
    | ok given =>
      obtain ⟨hgives, first, hfirst, hfirstSound⟩ := hcourse given between hrun
      have hrest := hnext given between hleads hsound hgives
      have hruns : (step >>= next).run before = (next given).run between := by
        rw [run_bind, hrun]
      refine ⟨?_, ?_, fun result after hyields => ?_⟩
      · rw [hruns]
        exact hleads.trans hrest.leads
      · rw [hruns]
        exact hrest.sound
      · rw [hruns] at hyields
        obtain ⟨hlast, second, hsecond, hsecondSound⟩ := hrest.course result after hyields
        have hafter := hrest.leads.onward
        rw [hyields] at hafter
        rw [hleads.repository] at hsecondSound
        refine ⟨hlast, first ++ second, Course.bind hfirst hsecond, ?_⟩
        rw [List.flatMap_append]
        exact (hfirstSound.mono hafter).append hsecondSound

/-- A step that does nothing the header has to tell of. -/
theorem proceeds_of_quiet (hsound : before.Sound)
    (hrepository : (step.run before).2.repository = before.repository)
    (hquiet : before.world.Quiet (step.run before).2.world)
    (henvironment : AllSound before.repository (step.run before).2.world
      (step.run before).2.environment.groups)
    (hgives : ∀ result after, step.run before = (.ok result, after) → gives after result) :
    step.Proceeds before gives where
  leads := ⟨hrepository, hquiet.onward⟩
  sound := Patcher.Leads.sound ⟨hrepository, hquiet.onward⟩ hsound henvironment
  course result after hyields := by
    have hafter := hquiet
    rw [hyields] at hafter
    exact ⟨hgives result after hyields, [], Course.quiet hyields hafter, AllSound.nil _ _⟩

variable (hsound : before.Sound)

include hsound

theorem proceeds_pure {result : Result} (hgives : gives before result) :
    (pure result : Run Result).Proceeds before gives := by
  refine proceeds_of_quiet hsound rfl (World.Quiet.refl _) hsound.environment ?_
  intro given after hyields
  cases hyields
  exact hgives

theorem proceeds_throw (fault : Fault) : (throw fault : Run Result).Proceeds before gives :=
  proceeds_of_quiet hsound rfl (World.Quiet.refl _) hsound.environment
    fun _ _ hyields => nomatch hyields

theorem proceeds_get :
    (get : Run Patcher).Proceeds before fun after result => result = before ∧ after = before := by
  refine proceeds_of_quiet hsound rfl (World.Quiet.refl _) hsound.environment ?_
  intro given after hyields
  cases hyields
  exact ⟨rfl, rfl⟩

theorem proceeds_note (level : Level) {source : Source} (hsource : source ≠ .procedures)
    (text : String) : (note level source text).Proceeds before fun _ _ => True := by
  have hquiet : before.world.Quiet (before.note level source text).world :=
    World.Quiet.of_kept rfl (Pool.KeptIn.refl _) (World.reports_push rfl hsource)
  exact proceeds_of_quiet hsound rfl hquiet (hsound.environment.mono hquiet.onward)
    fun _ _ _ => trivial

theorem proceeds_redefine {change : Environment → Environment} {held : List Group}
    (hheld : AllSound before.repository before.world held)
    (hchange : (change before.environment).groups ⊆ held) :
    (redefine change).Proceeds before fun _ _ => True :=
  proceeds_of_quiet hsound rfl (World.Quiet.refl _) (hheld.subset hchange) fun _ _ _ => trivial

theorem proceeds_evaluate {evaluation : Setting → Eval Result} {holds : World → Result → Prop}
    (hevaluation : (evaluation before.setting).Proceeds before.repository {} before.world holds) :
    (evaluate evaluation).Proceeds before fun after result =>
      holds after.world result ∧ after.environment = before.environment := by
  have honward := hevaluation.onward before.world (World.Onward.refl _)
  have hleads : before.Leads ((evaluate evaluation).run before).2 := by
    rw [run_evaluate]
    exact ⟨rfl, honward⟩
  refine ⟨hleads, ?_, fun result after hyields => ?_⟩
  · refine hleads.sound hsound ?_
    rw [bindsNothing_evaluate evaluation before]
    exact hsound.environment.mono hleads.onward
  · rw [run_evaluate] at hyields
    rcases hrun : (evaluation before.setting).run before.world with ⟨fault | given, world⟩
    · rw [hrun] at hyields
      cases hyields
    · rw [hrun] at hyields
      cases hyields
      obtain ⟨hholds, deeds, hcourse, hgroups⟩ :=
        hevaluation.course before.world result world (World.Onward.refl _) hrun
      exact ⟨⟨hholds, rfl⟩, deeds, Course.evaluate hcourse, hgroups⟩

omit hsound

theorem proceeds_forM {step : Item → Run PUnit} (items : List Item) {before : Patcher}
    (hsound : before.Sound)
    (hstep : ∀ item between, between.Sound → (step item).Proceeds between fun _ _ => True) :
    (items.forM step).Proceeds before fun _ _ => True := by
  induction items generalizing before with
  | nil => exact proceeds_pure hsound trivial
  | cons item rest ih =>
    exact (hstep item before hsound).bind fun _ _ _ hbetween _ => ih hbetween

end Run

/-! ## Statements -/

section

variable {before : Patcher} (hsound : before.Sound)

include hsound

theorem proceeds_listDefinitions :
    listDefinitions.Proceeds before fun after _ => after.environment = before.environment := by
  have hproceeds : listDefinitions.Proceeds before fun _ _ => True := by
    refine (Run.proceeds_get hsound).bind fun patcher between _ _ hsame => ?_
    obtain ⟨rfl, rfl⟩ := hsame
    split
    · have hset : (set { between with listed := true } : Run PUnit).Proceeds between
          fun _ _ => True :=
        Run.proceeds_of_quiet hsound rfl (World.Quiet.refl _) hsound.environment
          fun _ _ _ => trivial
      refine hset.bind fun _ later _ hlater _ => ?_
      exact Run.proceeds_forM _ hlater fun text last hlast =>
        Run.proceeds_note hlast .debug Source.noConfusion text
    · exact Run.proceeds_pure hsound trivial
  refine ⟨hproceeds.leads, hproceeds.sound, fun result after hyields => ?_⟩
  have hsame := bindsNothing_listDefinitions before
  rw [hyields] at hsame
  exact ⟨hsame, (hproceeds.course result after hyields).2⟩

theorem proceeds_assign (target : Target) {node : Node}
    (hnode : AllSound before.repository before.world node.groups) :
    (assign target node).Proceeds before fun _ _ => True := by
  unfold assign
  cases target.key with
  | some key =>
    refine Run.proceeds_redefine hsound (hsound.environment.append hnode) ?_
    exact Environment.groups_setTableEntry (List.subset_append_left _ _)
      (List.subset_append_right _ _) _ _
  | none =>
    have hevaluation : ((fun setting => node.evaluate setting none) before.setting).Proceeds
        before.repository {} before.world (Value.Sound before.repository) :=
      Node.soundArgument_evaluate hsound hnode {} none
    refine (Run.proceeds_evaluate hsound hevaluation).bind
      fun value between hbetween hlater hvalue => ?_
    have hvalueSound : AllSound between.repository between.world value.groups := by
      rw [hbetween.repository]
      exact hvalue.1
    refine Run.proceeds_redefine hlater (hlater.environment.append hvalueSound) ?_
    exact Environment.groups_define (List.subset_append_left _ _) (List.subset_append_right _ _) _

theorem proceeds_partition (name : String) {condition : Node} (purpose : String)
    (hcondition : AllSound before.repository before.world condition.groups) :
    (partition name fun setting => condition.holds setting purpose).Proceeds before
      fun after parted => parted.2.Sound after.repository after.world := by
  refine Run.Proceeds.bind (Run.proceeds_evaluate hsound (show Eval.Proceeds before.repository {}
    before.world _ (fun world (parted : Group × List Member × List Member) =>
      Group.Sound before.repository world ⟨parted.2.1⟩ ∧
        Group.Sound before.repository world ⟨parted.2.2⟩) from ?_)) ?_
  · have hsource : (Eval.settle (before.environment.group name)).Proceeds before.repository {}
        before.world fun world source => source.Sound before.repository world :=
      Eval.proceeds_settle fun world source honward hgroup =>
        (hsound.environment source (Environment.groups_of_group hgroup)).mono honward
    refine hsource.bind fun source between hbetween hgroup => ?_
    have hholds : ∀ record, (condition.holds before.setting purpose record).Proceeds
        before.repository {} between fun _ _ => True := fun record =>
      (Node.proceeds_holds hsound hcondition purpose record).later hbetween
    have hsplit := proceeds_splitMembers hholds source.members
    refine hsplit.bind fun parted last hlast hsublists => Eval.proceeds_pure fun world hworld => ?_
    have hlater := hgroup.mono (hlast.trans hworld)
    exact ⟨hlater.sublist hsublists.1, hlater.sublist hsublists.2⟩
  · intro parted between hbetween hlater hgives
    obtain ⟨⟨hkept, htaken⟩, -⟩ := hgives
    rw [← hbetween.repository] at hkept htaken
    have hredefine : (Run.redefine fun environment =>
        environment.define name (.group ⟨parted.2.1⟩)).Proceeds between fun _ _ => True :=
      Run.proceeds_redefine hlater (hlater.environment.append (AllSound.singleton hkept))
        (Environment.groups_define (List.subset_append_left _ _) (List.subset_append_right _ _) _)
    refine hredefine.bind fun _ defined hdefined hdefinedSound _ => ?_
    refine (Run.proceeds_note hdefinedSound .debug Source.noConfusion _).bind
      fun _ last hlast hlastSound _ => ?_
    refine Run.proceeds_pure hlastSound ?_
    rw [hlast.repository, hdefined.repository]
    exact htaken.mono (hdefined.onward.trans hlast.onward)

theorem Statement.proceeds_execute {statement : Statement}
    (hstatement : AllSound before.repository before.world statement.groups) :
    statement.execute.Proceeds before fun _ _ => True := by
  cases statement with
  | define target expression => exact proceeds_assign hsound target hstatement
  | query target found =>
    have hevaluation : ((fun setting => resolveGroup setting.repository found.selector
        found.definition.kind (found.condition.holds setting "group condition")
        found.definition.mode) before.setting).Proceeds before.repository {} before.world
          fun world group => group.Sound before.repository world :=
      proceeds_resolveGroup (fun record => Node.proceeds_holds hsound hstatement _ record)
        hsound.loaded _ _ _
    refine (Run.proceeds_evaluate hsound hevaluation).bind
      fun group between hbetween hlater hgroup => ?_
    refine proceeds_assign hlater target (AllSound.singleton ?_)
    rw [hbetween.repository]
    exact hgroup.1
  | extract target source condition =>
    refine (proceeds_partition hsound source "extraction condition" hstatement).bind
      fun parted between _ hlater htaken => ?_
    exact proceeds_assign hlater target (AllSound.singleton htaken)
  | invoke expression =>
    have hevaluate : ∀ {between : Patcher}, between.Sound →
        AllSound between.repository between.world expression.groups →
        (do let _ ← Run.evaluate fun setting => expression.evaluate setting none :
          Run Unit).Proceeds between fun _ _ => True := by
      intro between hlater hexpression
      have hevaluation : ((fun setting => expression.evaluate setting none)
          between.setting).Proceeds between.repository {} between.world
            (Value.Sound between.repository) :=
        Node.soundArgument_evaluate hlater hexpression {} none
      exact (Run.proceeds_evaluate hlater hevaluation).bind fun _ _ _ hlast _ =>
        Run.proceeds_pure hlast trivial
    unfold Statement.execute
    cases expression with
    | pipe left procedure arguments pairwise =>
      refine (proceeds_listDefinitions hsound).bind fun _ between hbetween hlater _ => ?_
      refine hevaluate hlater ?_
      rw [hbetween.repository]
      exact AllSound.mono hstatement hbetween.onward
    | _ => exact hevaluate hsound hstatement

/-- A line leads from sound groups to sound groups. -/
theorem executeLine_proceeds (line : String) :
    (executeLine line).Proceeds before fun _ _ => True := by
  refine (Run.proceeds_get hsound).bind fun patcher between _ hlater hsame => ?_
  obtain ⟨rfl, rfl⟩ := hsame
  cases hread : Statement.ofLine between.names line with
  | error fault => exact Run.proceeds_throw hsound fault
  | ok statement =>
    exact Statement.proceeds_execute hsound
      (hsound.environment.subset (Statement.groups_ofLine hread))

end

/-! ## Scripts -/

/-- From sound groups lines lead to sound groups, and if none of them fails, then with a
course whose deeds are about sound groups. -/
theorem executeLines_proceeds (number executed : Nat) (lines : List String) {patcher : Patcher}
    (hsound : patcher.Sound) :
    let ran := executeLines number executed lines patcher
    patcher.Leads ran.2 ∧ ran.2.Sound ∧
      (ran.1.2 = none → ∃ deeds, patcher.Course lines deeds ran.2 ∧
        AllSound patcher.repository ran.2.world (deeds.flatMap Deed.groups)) := by
  induction lines generalizing number executed patcher with
  | nil => exact ⟨Patcher.Leads.refl _, hsound, fun _ => ⟨[], .done patcher, AllSound.nil _ _⟩⟩
  | cons raw rest ih =>
    cases hrunning : patcher.world.stopping with
    | true =>
      rw [executeLines_of_stopping _ _ _ hrunning]
      exact ⟨Patcher.Leads.refl _, hsound, fun _ => ⟨[], .stopped hrunning _, AllSound.nil _ _⟩⟩
    | false =>
      by_cases hblank : stripComment raw = ""
      · rw [executeLines_of_blank _ _ _ hrunning hblank]
        obtain ⟨hleads, hlast, hcourse⟩ := ih (number + 1) executed hsound
        refine ⟨hleads, hlast, fun hnone => ?_⟩
        obtain ⟨deeds, hrest, hdeeds⟩ := hcourse hnone
        exact ⟨deeds, .blank hrunning hblank hrest, hdeeds⟩
      · rw [executeLines_of_statement _ _ _ hrunning hblank]
        obtain ⟨hleads, hbetween, hcourse⟩ := executeLine_proceeds hsound (stripComment raw)
        rcases hline : (executeLine (stripComment raw)).run patcher with
          ⟨fault | result, between⟩ <;>
          rw [hline] at hleads hbetween
        · exact ⟨hleads, hbetween, fun hnone => nomatch hnone⟩
        · obtain ⟨hrestLeads, hlast, hrest⟩ := ih (number + 1) (executed + 1) hbetween
          refine ⟨hleads.trans hrestLeads, hlast, fun hnone => ?_⟩
          obtain ⟨-, first, hfirst, hfirstSound⟩ := hcourse result between hline
          obtain ⟨second, hsecond, hsecondSound⟩ := hrest hnone
          refine ⟨first ++ second, .line hrunning hblank hfirst hsecond, ?_⟩
          rw [List.flatMap_append]
          rw [hleads.repository] at hsecondSound
          exact (hfirstSound.mono hrestLeads.onward).append hsecondSound

/-- At the start of a run nothing is defined, so every group that is, is sound. -/
theorem sound_start {patcher : Patcher} (hloaded : patcher.repository.Loaded patcher.world.pool)
    (mod : Mod) : (patcher.reset.start mod).Sound :=
  ⟨hloaded, AllSound.nil _ _⟩

theorem afterLine_leads {patcher : Patcher} (hsound : patcher.Sound) (raw : String) :
    patcher.Leads (patcher.afterLine raw) ∧ (patcher.afterLine raw).Sound := by
  have hline := executeLine_proceeds hsound (stripComment raw)
  rw [Patcher.afterLine]
  split
  · exact ⟨hline.leads, hline.sound⟩
  · exact ⟨Patcher.Leads.refl _, hsound⟩

theorem leftBy_leads (lines : List String) {patcher : Patcher} (hsound : patcher.Sound) :
    patcher.Leads (patcher.leftBy lines) ∧ (patcher.leftBy lines).Sound := by
  induction lines generalizing patcher with
  | nil =>
    rw [Patcher.leftBy, List.foldl_nil]
    exact ⟨Patcher.Leads.refl _, hsound⟩
  | cons raw rest ih =>
    obtain ⟨hleads, hbetween⟩ := afterLine_leads hsound raw
    obtain ⟨hrest, hlast⟩ := ih hbetween
    rw [Patcher.leftBy_cons]
    exact ⟨hleads.trans hrest, hlast⟩

/-- After any lines every group that is defined or stands in a table entry lists its records
under their own mods, has records with different identifiers, and none of them is a record
of a loaded mod.  This holds where a run ends, and it would hold as well if lines were
carried out after one that fails or asks to stop. -/
theorem afterLines_groups (patcher : Patcher) (mod : Mod)
    (hloaded : patcher.repository.Loaded patcher.world.pool) (lines : List String)
    (after : Patcher) (hafter : after = patcher.afterLines mod lines ∨
      after = (patcher.reset.start mod).leftBy lines) :
    ∀ group ∈ after.environment.groups,
      group.members.map Member.mod =
          group.records.map (fun ref => (after.world.pool.get ref).mod) ∧
        (group.records.map fun ref => (after.world.pool.get ref).id).Nodup ∧
        ∀ ref ∈ group.records, ref ∉ patcher.repository.places := by
  have hstart := sound_start hloaded mod
  have hsound : (patcher.reset.start mod).Leads after ∧ after.Sound := by
    rcases hafter with rfl | rfl
    · obtain ⟨hleads, hsound, -⟩ := executeLines_proceeds 1 0 lines hstart
      exact ⟨hleads, hsound⟩
    · exact leftBy_leads lines hstart
  have hrepository : after.repository = patcher.repository := hsound.1.repository
  intro group hgroup
  have hgroupSound : group.Sound patcher.repository after.world := by
    rw [← hrepository]
    exact hsound.2.environment group hgroup
  refine ⟨?_, ?_, fun ref href => ?_⟩
  · rw [Group.records, List.map_map]
    exact List.map_congr_left fun member hmember =>
      (hgroupSound.members member hmember).mod.symm
  · rw [Group.records, List.map_map]
    exact hgroupSound.distinct
  · obtain ⟨member, hmember, rfl⟩ := List.mem_map.mp href
    exact (hgroupSound.members member hmember).apart

theorem loaded_armourer : armourer.repository.Loaded armourer.world.pool := by
  have hempty : Repository.Loaded {} {} :=
    ⟨fun _ href => (nomatch href), fun _ hmod => (nomatch hmod)⟩
  exact hempty.add_create "base" _ [] []

/-- A script that looks the weapons up, clones the only one and keeps the clones in a
table. -/
def forging : List String :=
  ["arms := (all)(A:WEAPON|true())", "twins := Clone(arms, 2)", "rack[spare] := twins"]

theorem forging_groups :
    let after := armourer.afterLines sharper forging
    after.environment.groups.map Group.size = [1, 2, 2] ∧
      ∀ group ∈ after.environment.groups,
        group.members.map Member.mod =
            group.records.map (fun ref => (after.world.pool.get ref).mod) ∧
          (group.records.map fun ref => (after.world.pool.get ref).id).Nodup ∧
          ∀ ref ∈ group.records, ref ∉ armourer.repository.places :=
  ⟨by decide +kernel,
    afterLines_groups armourer sharper loaded_armourer forging _ (Or.inl rfl)⟩

end Patchwork
