import Patchwork.Proofs.Horizon.Evaluation
import Patchwork.Proofs.Merge.Identities
import Patchwork.Proofs.Relocation.Gathering
import Patchwork.Proofs.Runs.Bindings

/-!
# Runs stay within a horizon

Everything a run has defined is within any horizon that covers the records and the marks at
its end: definitions and table entries refer only to records there are, and have only marks
that have been given.
-/

namespace Patchwork

open Agree.Computations (run_bind)

variable {horizon : Horizon} {Result Other Item : Type}

/-! ## Merged records -/

theorem Record.Within.applyChanges {record version : Record} (hrecord : record.Within horizon)
    (hversion : version.Within horizon) : (record.applyChanges version).Within horizon := by
  have hwritten := Entries.putAll_convert (Plain.remark horizon.relocation.mark)
    (Plain.beq_remark horizon.relocation.mark_injective) record.fields version.fields
  rw [within_iff.mp hrecord, within_iff.mp hversion] at hwritten
  exact within_iff.mpr hwritten.symm

namespace Merge

variable {pool : Pool} (hpool : pool.Within horizon)

include hpool

theorem within_mergeVersions (creator : Member) (versions : List Member) :
    (mergeVersions pool creator versions).Within horizon := by
  have hfold : ∀ (others : List Member) (merged : Record), merged.Within horizon →
      (others.foldl (fun merged version => merged.applyChanges (pool.get version.record))
        merged).Within horizon := by
    intro others
    induction others with
    | nil => exact fun _ hmerged => hmerged
    | cons version rest ih =>
      exact fun merged hmerged => ih _ (hmerged.applyChanges (hpool version.record))
  exact hfold _ _ (hpool creator.record)

theorem within_mergeAll (members : List Member) :
    ∀ record ∈ (mergeAll pool members).merged.map Prod.snd, record.Within horizon := by
  rw [List.forall_mem_map, merged_mergeAll]
  intro merged hmerged
  obtain ⟨id, -, hversion⟩ := List.mem_filterMap.mp hmerged
  obtain ⟨creator, -, rfl⟩ := Option.map_eq_some_iff.mp hversion
  exact within_mergeVersions hpool creator _

end Merge

/-! ## Queries and extractions -/

theorem stays_placed (outcomeOf : Pool → Merge.Outcome)
    (houtcome : ∀ pool : Pool, ∃ members, outcomeOf pool = Merge.mergeAll pool members) :
    (do
      let pool := (← get).pool
      return (← Eval.place (outcomeOf pool), (outcomeOf pool).orphans) :
        Eval (Group × List String)).Stays horizon fun merged => merged.1.Within horizon where
  keeps before := by
    refine ⟨?_, Nat.le_refl _, fun hpool _ => ?_⟩
    · exact Pool.size_le_of_keptIn (Merge.keptIn_place (outcomeOf before.pool) before.pool)
    · obtain ⟨members, hmerged⟩ := houtcome before.pool
      refine hpool.addAll fun record hrecord => ?_
      rw [hmerged] at hrecord
      exact Merge.within_mergeAll hpool members record hrecord
  gives before result after hyields _ hcovers := by
    cases hyields
    exact fun ref href => hcovers.ref (Merge.fresh_place _ before.pool ref href).2

theorem stays_mergedRecords (repository : Repository) (selector kind : String) :
    (mergedRecords repository selector kind).Stays horizon fun merged =>
      merged.1.Within horizon := by
  have hplaced := @stays_placed horizon (fun pool => Merge.mergeAll pool
    (Repository.collect pool kind (repository.select selector).1)) fun _ => ⟨_, rfl⟩
  unfold mergedRecords
  dsimp only at hplaced ⊢
  cases Repository.missingNotice? (repository.select selector).2 with
  | none => exact hplaced
  | some notice =>
    have hnotice : (modify fun world : World =>
        { world with journal := world.journal.push notice } : Eval PUnit).Stays horizon
          fun _ => True := Eval.stays_modify (fun _ => rfl) fun _ => rfl
    exact hnotice.andThen fun _ => hplaced

section

variable {condition : RecordRef → Eval Bool}
  (hcondition : ∀ record, (condition record).Stays horizon fun _ => True)

include hcondition

theorem stays_keepMatches (mode : SelectionMode) (members : List Member) :
    (keepMatches mode condition members).Stays horizon fun kept => kept.Sublist members := by
  induction members with
  | nil => exact Eval.stays_pure (List.Sublist.refl [])
  | cons member rest ih =>
    refine (hcondition member.record).andThen fun accepted => ?_
    cases accepted with
    | false => exact ih.mono fun _ hkept => hkept.cons member
    | true =>
      cases mode with
      | firstMatch => exact Eval.stays_pure ((List.nil_sublist rest).cons_cons member)
      | allMatches => exact ih.bind fun kept => Eval.stays_pure fun hkept => hkept.cons_cons member

theorem stays_splitMembers (members : List Member) :
    (splitMembers condition members).Stays horizon fun parted =>
      parted.1.Sublist members ∧ parted.2.Sublist members := by
  induction members with
  | nil => exact Eval.stays_pure ⟨List.Sublist.refl [], List.Sublist.refl []⟩
  | cons member rest ih =>
    refine (hcondition member.record).andThen fun accepted => ?_
    refine ih.bind fun parted => Eval.stays_pure fun hparted => ?_
    cases accepted with
    | false => exact ⟨hparted.1.cons_cons member, hparted.2.cons member⟩
    | true => exact ⟨hparted.1.cons member, hparted.2.cons_cons member⟩

theorem stays_resolveGroup (repository : Repository) (selector kind : String)
    (mode : SelectionMode) :
    (resolveGroup repository selector kind condition mode).Stays horizon
      (Group.Within horizon) := by
  refine (stays_mergedRecords repository selector kind).bind fun merged => ?_
  refine (stays_keepMatches hcondition mode merged.1.members).bind fun kept => ?_
  exact (Eval.stays_note ..).andThen fun _ => Eval.stays_pure fun hkept hmerged =>
    hmerged.sublist hkept

end

/-! ## Names and lines -/

theorem Environment.Within.environments {environment : Environment}
    (henvironment : environment.Within horizon) :
    horizon.relocation.Environments environment environment := by
  refine ⟨?_, ⟨fun entry _ => entry.2.free_of_none horizon.loaded_eq,
    fun _ _ entry _ => entry.2.free_of_none horizon.loaded_eq⟩⟩
  have hdefinitions : environment.definitions.convert id (Value.relocate horizon.relocation) =
      environment.definitions :=
    map_eq_self_iff.mpr fun entry hentry =>
      Prod.ext rfl (henvironment.definitions entry hentry)
  have htables : environment.tables.convert id
      (Entries.convert id (Node.relocate horizon.relocation)) = environment.tables :=
    map_eq_self_iff.mpr fun table htable => Prod.ext rfl <|
      map_eq_self_iff.mpr fun entry hentry =>
        Prod.ext rfl (henvironment.tables table htable entry hentry)
  rw [Environment.relocate, hdefinitions, htables]

section

variable {names : Names} (henvironment : names.environment.Within horizon)
  (hlabels : names.labels.Within horizon)

include henvironment hlabels

/-- An expression that is read where everything defined is within a horizon is within it. -/
theorem Node.within_ofText {text : String} {node : Node}
    (hread : Node.ofText names text = .ok node) : node.Within horizon := by
  have houtcomes := Node.ofText_relocate ⟨henvironment.environments, hlabels, rfl⟩ text
  exact (values_of_outcomes houtcomes hread).1.symm

theorem Statement.within_ofLine {line : String} {statement : Statement}
    (hread : Statement.ofLine names line = .ok statement) : statement.node.Within horizon := by
  have houtcomes := Statement.ofLine_relocate ⟨henvironment.environments, hlabels, rfl⟩ line
  have halike := values_of_outcomes houtcomes hread
  cases halike with
  | define target hexpression => exact hexpression.1.symm
  | query target selector definition hcondition => exact hcondition.1.symm
  | extract target source hcondition => exact hcondition.1.symm
  | invoke hexpression => exact hexpression.1.symm

end

/-! ## Steps of a run -/

theorem Environment.within_unmoved (environment : Environment) :
    environment.Within Horizon.unmoved :=
  ⟨fun entry _ => entry.2.within_unmoved, fun _ _ entry _ => entry.2.within_unmoved⟩

namespace Patcher

/-- All records and everything that is defined are within a horizon. -/
structure Within (horizon : Horizon) (patcher : Patcher) : Prop where
  pool : patcher.world.pool.Within horizon
  environment : patcher.environment.Within horizon

/-- The records and the marks of a patcher do not go beyond a horizon. -/
abbrev CoveredBy (horizon : Horizon) (patcher : Patcher) : Prop :=
  horizon.Covers patcher.world.pool patcher.world.marks

/-- The pool and the supply of marks have grown. -/
structure GrownTo (before after : Patcher) : Prop where
  places : before.world.pool.records.size ≤ after.world.pool.records.size
  marks : before.world.marks ≤ after.world.marks

variable {before between after : Patcher}

theorem GrownTo.refl (patcher : Patcher) : patcher.GrownTo patcher :=
  ⟨Nat.le_refl _, Nat.le_refl _⟩

theorem GrownTo.trans (hfirst : before.GrownTo between) (hsecond : between.GrownTo after) :
    before.GrownTo after :=
  ⟨Nat.le_trans hfirst.places hsecond.places, Nat.le_trans hfirst.marks hsecond.marks⟩

theorem GrownTo.covers (hgrown : before.GrownTo after) (hcovers : after.CoveredBy horizon) :
    before.CoveredBy horizon :=
  ⟨Nat.le_trans hgrown.places hcovers.places, Nat.le_trans hgrown.marks hcovers.marks⟩

/-- The pool and the marks have grown, and everything is still within each horizon that
covers them and meets a condition. -/
structure StaysTo (needs : Horizon → Prop) (before after : Patcher) : Prop where
  grown : before.GrownTo after
  within : ∀ horizon, needs horizon → before.Within horizon → after.CoveredBy horizon →
    after.Within horizon

variable {needs : Horizon → Prop}

theorem StaysTo.refl (patcher : Patcher) : patcher.StaysTo needs patcher :=
  ⟨GrownTo.refl patcher, fun _ _ hpatcher _ => hpatcher⟩

theorem StaysTo.trans (hfirst : before.StaysTo needs between)
    (hsecond : between.StaysTo needs after) : before.StaysTo needs after where
  grown := hfirst.grown.trans hsecond.grown
  within horizon hneeds hbefore hcovers :=
    hsecond.within horizon hneeds
      (hfirst.within horizon hneeds hbefore (hsecond.grown.covers hcovers)) hcovers

/-- Nothing has happened to the records, the marks and what is defined. -/
theorem staysTo_of_rest (hpool : after.world.pool = before.world.pool)
    (hmarks : after.world.marks = before.world.marks)
    (henvironment : after.environment = before.environment) : before.StaysTo needs after := by
  refine ⟨⟨Nat.le_of_eq (by rw [hpool]), Nat.le_of_eq hmarks.symm⟩,
    fun _ _ hbefore _ => ⟨?_, ?_⟩⟩
  · rw [hpool]
    exact hbefore.pool
  · rw [henvironment]
    exact hbefore.environment

end Patcher

namespace Run

/-- A step of a run after which everything is still within each horizon that covers the
records and the marks then, whether it fails or not.  The horizon may have to meet a
condition, and what the step gives meets another one. -/
structure Stays (needs : Horizon → Prop) (gives : Horizon → Result → Prop)
    (step : Run Result) : Prop where
  leads : ∀ before : Patcher, before.StaysTo needs (step.run before).2
  gives : ∀ (horizon : Horizon) (before : Patcher) (result : Result) (after : Patcher),
    step.run before = (.ok result, after) → needs horizon → before.Within horizon →
      after.CoveredBy horizon → gives horizon result

variable {needs : Horizon → Prop} {gives : Horizon → Result → Prop}
  {givesNext : Horizon → Other → Prop} {step : Run Result}

theorem stays_pure {result : Result} (hresult : ∀ horizon, needs horizon → gives horizon result) :
    (pure result : Run Result).Stays needs gives where
  leads before := Patcher.StaysTo.refl before
  gives horizon before given after hrun hneeds _ _ := by
    cases hrun
    exact hresult horizon hneeds

/-- What comes second may rely on what the first step has given. -/
theorem Stays.bind {next : Result → Run Other} (hfirst : step.Stays needs gives)
    (hnext : ∀ result, (next result).Stays
      (fun horizon => needs horizon ∧ gives horizon result) givesNext) :
    Stays needs givesNext (step >>= next) where
  leads before := by
    have hleads := hfirst.leads before
    have hgives := fun horizon => hfirst.gives horizon before
    rw [run_bind]
    generalize step.run before = ran at hleads hgives ⊢
    obtain ⟨fault | result, between⟩ := ran
    · exact hleads
    · have hlater := (hnext result).leads between
      refine ⟨hleads.grown.trans hlater.grown, fun horizon hneeds hbefore hcovers => ?_⟩
      have hbetween := hlater.grown.covers hcovers
      have hresult := hgives horizon result between rfl hneeds hbefore hbetween
      exact hlater.within horizon ⟨hneeds, hresult⟩
        (hleads.within horizon hneeds hbefore hbetween) hcovers
  gives horizon before last after hrun hneeds hbefore hcovers := by
    have hleads := hfirst.leads before
    have hgives := hfirst.gives horizon before
    rw [run_bind] at hrun
    generalize step.run before = ran at hleads hgives hrun
    obtain ⟨fault | result, between⟩ := ran
    · cases hrun
    · have hlater := (hnext result).leads between
      dsimp only at hrun
      rw [hrun] at hlater
      have hbetween := hlater.grown.covers hcovers
      have hresult := hgives result between rfl hneeds hbefore hbetween
      exact (hnext result).gives horizon between last after hrun ⟨hneeds, hresult⟩
        (hleads.within horizon hneeds hbefore hbetween) hcovers

theorem stays_note (level : Level) (source : Source) (text : String) :
    (note level source text).Stays needs fun _ _ => True where
  leads _ := Patcher.staysTo_of_rest rfl rfl rfl
  gives _ _ _ _ _ _ _ _ := trivial

theorem stays_redefine {change : Environment → Environment}
    (hchange : ∀ horizon, needs horizon → ∀ environment : Environment,
      environment.Within horizon → (change environment).Within horizon) :
    (redefine change).Stays needs fun _ _ => True where
  leads before := ⟨⟨Nat.le_refl _, Nat.le_refl _⟩, fun horizon hneeds hbefore _ =>
    ⟨hbefore.pool, hchange horizon hneeds before.environment hbefore.environment⟩⟩
  gives _ _ _ _ _ _ _ _ := trivial

/-- An evaluation may rely on everything that is defined. -/
theorem stays_evaluate {evaluation : Setting → Eval Result}
    (hevaluation : ∀ (horizon : Horizon) (setting : Setting),
      setting.environment.Within horizon →
        (evaluation setting).Stays horizon fun result => needs horizon → gives horizon result) :
    (evaluate evaluation).Stays needs gives where
  leads before := by
    have hgrown := (hevaluation Horizon.unmoved before.setting
      before.environment.within_unmoved).keeps before.world
    rw [run_evaluate]
    refine ⟨⟨hgrown.places, hgrown.marks⟩, fun horizon _ hbefore hcovers => ?_⟩
    have hkeeps := (hevaluation horizon before.setting hbefore.environment).keeps before.world
    exact ⟨hkeeps.within hbefore.pool hcovers, hbefore.environment⟩
  gives horizon before result after hrun hneeds hbefore hcovers := by
    rw [run_evaluate] at hrun
    obtain ⟨hresult, rfl⟩ := Prod.mk.inj hrun
    exact (hevaluation horizon before.setting hbefore.environment).gives before.world result _
      (Prod.ext hresult rfl) hbefore.pool hcovers hneeds

end Run

/-! ## Statements -/

variable {needs : Horizon → Prop}

theorem stays_listDefinitions : listDefinitions.Stays needs fun _ _ => True where
  leads before := by
    have hnotes : ∀ (texts : List String) (patcher : Patcher), patcher.StaysTo needs
        ((texts.forM fun text => Run.note .debug .context text : Run PUnit).run patcher).2 := by
      intro texts
      induction texts with
      | nil => exact Patcher.StaysTo.refl
      | cons text rest ih =>
        exact fun patcher => ((Run.stays_note .debug .context text).leads patcher).trans (ih _)
    rw [listDefinitions, run_bind]
    change before.StaysTo needs ((if !before.listed then _ else _ : Run Unit).run before).2
    split
    · have hlisted : before.StaysTo needs { before with listed := true } :=
        Patcher.staysTo_of_rest rfl rfl rfl
      exact hlisted.trans (hnotes _ { before with listed := true })
    · exact Patcher.StaysTo.refl before
  gives _ _ _ _ _ _ _ _ := trivial

theorem stays_assign (target : Target) {node : Node}
    (hnode : ∀ horizon, needs horizon → node.Within horizon) :
    (assign target node).Stays needs fun _ _ => True := by
  unfold assign
  cases target.key with
  | some key =>
    exact Run.stays_redefine fun horizon hneeds _ henvironment =>
      henvironment.setTableEntry (hnode horizon hneeds) _ _
  | none =>
    have hevaluate : (Run.evaluate fun setting => node.evaluate setting none).Stays needs
        fun horizon value => value.Within horizon :=
      Run.stays_evaluate fun horizon setting henvironment =>
        (Node.stays_evaluate henvironment node none).mono fun _ hvalue hneeds =>
          hvalue (hnode horizon hneeds) currently_none
    exact hevaluate.bind fun value => Run.stays_redefine fun horizon hboth _ henvironment =>
      henvironment.define hboth.2 _

theorem stays_partition (name purpose : String) (condition : Node) :
    (partition name fun setting => condition.holds setting purpose).Stays needs
      fun horizon parted => parted.2.Within horizon := by
  have hevaluate : (Run.evaluate fun setting => do
      let source ← Eval.settle (setting.environment.group name)
      let parted ← splitMembers (condition.holds setting purpose) source.members
      return (source, parted.1, parted.2)).Stays needs fun horizon parted =>
        Group.Within horizon ⟨parted.2.1⟩ ∧ Group.Within horizon ⟨parted.2.2⟩ := by
    refine Run.stays_evaluate fun horizon setting henvironment => ?_
    have hsource : (Eval.settle (setting.environment.group name)).Stays horizon
        (Group.Within horizon) :=
      Eval.stays_settle fun source hgroup =>
        Value.within_group.mp (henvironment.of_group hgroup)
    refine hsource.bind fun source => ?_
    refine (stays_splitMembers (Node.stays_holds henvironment condition purpose)
      source.members).bind fun parted => ?_
    exact Eval.stays_pure fun hparted hsource _ =>
      ⟨hsource.sublist hparted.1, hsource.sublist hparted.2⟩
  refine hevaluate.bind fun parted => ?_
  refine (Run.stays_redefine fun horizon hboth _ henvironment =>
    henvironment.define (Value.within_group.mpr hboth.2.1) name).bind fun _ => ?_
  refine (Run.stays_note ..).bind fun _ => ?_
  exact Run.stays_pure fun horizon hall => hall.1.1.2.2

/-- A statement leaves everything within each horizon that its expression is within. -/
theorem Statement.stays_execute (statement : Statement) :
    statement.execute.Stays (fun horizon => statement.node.Within horizon) fun _ _ => True := by
  cases statement with
  | define target expression => exact stays_assign target fun _ hexpression => hexpression
  | query target found =>
    have hevaluate : (Run.evaluate fun setting =>
        resolveGroup setting.repository found.selector found.definition.kind
          (found.condition.holds setting "group condition") found.definition.mode).Stays
        (fun horizon => found.condition.Within horizon) fun horizon group =>
          group.Within horizon :=
      Run.stays_evaluate fun horizon setting henvironment =>
        (stays_resolveGroup (Node.stays_holds henvironment found.condition "group condition")
          ..).mono fun _ hgroup _ => hgroup
    exact hevaluate.bind fun group => stays_assign target fun horizon hboth =>
      Node.within_group.mpr hboth.2
  | extract target source condition =>
    exact (stays_partition source _ condition).bind fun parted =>
      stays_assign target fun horizon hboth => Node.within_group.mpr hboth.2
  | invoke expression =>
    have hevaluate : ∀ {needs : Horizon → Prop},
        (do let _ ← Run.evaluate fun setting => expression.evaluate setting none :
          Run Unit).Stays needs fun _ _ => True := by
      intro needs
      refine (Run.stays_evaluate fun horizon setting henvironment =>
        (Node.stays_evaluate henvironment expression none).mono fun _ _ _ => trivial).bind
          fun _ => Run.stays_pure fun _ _ => trivial
    unfold Statement.execute
    cases expression with
    | pipe left procedure arguments pairwise =>
      exact stays_listDefinitions.bind fun _ => hevaluate
    | _ => exact hevaluate

/-! ## Lines -/

theorem staysTo_executeLine (line : String) (before : Patcher) :
    before.StaysTo (fun _ => True) ((executeLine line).run before).2 := by
  cases hread : Statement.ofLine before.names line with
  | error fault =>
    rw [run_executeLine_of_unread hread]
    exact Patcher.StaysTo.refl before
  | ok statement =>
    rw [run_executeLine_of_read hread]
    have hleads := statement.stays_execute.leads before
    refine ⟨hleads.grown, fun horizon _ hbefore hcovers => ?_⟩
    have hlabels := (hleads.grown.covers hcovers).labels
    exact hleads.within horizon (Statement.within_ofLine hbefore.environment hlabels hread)
      hbefore hcovers

theorem staysTo_executeLines (number executed : Nat) (lines : List String) (before : Patcher) :
    before.StaysTo (fun _ => True) (executeLines number executed lines before).2 := by
  induction lines generalizing number executed before with
  | nil => exact Patcher.StaysTo.refl before
  | cons raw rest ih =>
    have hline := staysTo_executeLine (stripComment raw) before
    rw [executeLines]
    split
    · exact Patcher.StaysTo.refl before
    dsimp only
    split
    · exact ih ..
    · generalize (executeLine (stripComment raw)).run before = ran at hline ⊢
      obtain ⟨fault | _, between⟩ := ran
      · exact hline
      · exact hline.trans (ih ..)

end Patchwork
