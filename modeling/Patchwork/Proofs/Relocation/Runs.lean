import Patchwork.Patcher
import Patchwork.Proofs.Relocation.Evaluation
import Patchwork.Proofs.Relocation.Reading

/-!
# Runs after a relocation

Two patchers correspond if what they have defined, their loaded mods and their
worlds do.  A line does corresponding things to corresponding patchers, and so do
all lines of a script: as many are carried out, and the same line fails for the
same reason.
-/

namespace Patchwork

open Agree

namespace Relocation

variable (relocation : Relocation)

/-- A free member of a group and the member with its record at its other place. -/
def Members (member member' : Member) : Prop :=
  member' = member.relocate relocation ∧ relocation.Free member.record

/-- Corresponding patchers.  The first one has the given loaded mods and the
given seed. -/
structure Patchers (repository : Repository) (seed : Option Int) (left right : Patcher) :
    Prop where
  mods : left.repository = repository
  relocated : right.repository = repository.relocate relocation
  seed : left.seed = seed
  environments : relocation.Environments left.environment right.environment
  worlds : relocation.Worlds left.world right.world
  listed : right.listed = left.listed

/-- Conditions with the same verdicts on corresponding records. -/
def Conditions (condition condition' : RecordRef → Eval Bool) : Prop :=
  ∀ ref ref', relocation.Refs ref ref' →
    Computations relocation.Worlds Eq (condition ref) (condition' ref')

variable {relocation}

theorem Members.refs {member member' : Member} (hmembers : relocation.Members member member') :
    relocation.Refs member.record member'.record :=
  ⟨congrArg Member.record hmembers.1, hmembers.2⟩

theorem forall₂_members_iff {members members' : List Member} :
    List.Forall₂ relocation.Members members members' ↔
      relocation.Groups ⟨members⟩ ⟨members'⟩ := by
  refine forall₂_eq_map_iff.trans (and_congr_left fun _ => ?_)
  rw [Group.relocate, Group.mk.injEq]
  rfl

namespace Patchers

variable {repository : Repository} {seed : Option Int} {left right : Patcher}

theorem settings (hpatchers : relocation.Patchers repository seed left right) :
    relocation.Settings left.setting right.setting := by
  refine ⟨hpatchers.environments, ?_⟩
  simp only [Patcher.setting, hpatchers.mods, hpatchers.relocated]

theorem namings (hpatchers : relocation.Patchers repository seed left right) :
    relocation.Namings left.names right.names :=
  ⟨hpatchers.environments, hpatchers.worlds.pools.label_ref, rfl⟩

theorem note (hpatchers : relocation.Patchers repository seed left right) (level : Level)
    (source : Source) (text text' : String) :
    relocation.Patchers repository seed (left.note level source text)
      (right.note level source text') :=
  { hpatchers with
    worlds := ⟨hpatchers.worlds.pools, hpatchers.worlds.active, hpatchers.worlds.draws,
      hpatchers.worlds.stopping, hpatchers.worlds.marks⟩ }

end Patchers

end Relocation

variable {relocation : Relocation} {repository : Repository} {seed : Option Int}

/-! ## Group queries -/

section Queries

variable {condition condition' : RecordRef → Eval Bool}
variable (hconditions : relocation.Conditions condition condition')

include hconditions

theorem keepMatches_relocate (mode : SelectionMode) {members members' : List Member}
    (hmembers : List.Forall₂ relocation.Members members members') :
    Computations relocation.Worlds (List.Forall₂ relocation.Members)
      (keepMatches mode condition members) (keepMatches mode condition' members') := by
  induction hmembers with
  | nil => exact Computations.of_pure List.Forall₂.nil
  | cons hmember _ ih =>
    unfold keepMatches
    refine (hconditions _ _ hmember.refs).of_bind fun accepted accepted' haccepted => ?_
    subst haccepted
    split
    · cases mode with
      | firstMatch => exact Computations.of_pure (List.Forall₂.cons hmember List.Forall₂.nil)
      | allMatches =>
        exact ih.of_bind fun _ _ hkept => Computations.of_pure (List.Forall₂.cons hmember hkept)
    · exact ih

theorem splitMembers_relocate {members members' : List Member}
    (hmembers : List.Forall₂ relocation.Members members members') :
    Computations relocation.Worlds
      (fun parts parts' => List.Forall₂ relocation.Members parts.1 parts'.1 ∧
        List.Forall₂ relocation.Members parts.2 parts'.2)
      (splitMembers condition members) (splitMembers condition' members') := by
  induction hmembers with
  | nil => exact Computations.of_pure ⟨List.Forall₂.nil, List.Forall₂.nil⟩
  | cons hmember _ ih =>
    unfold splitMembers
    refine (hconditions _ _ hmember.refs).of_bind fun accepted accepted' haccepted => ?_
    subst haccepted
    refine ih.of_bind fun parts parts' hparts => ?_
    obtain ⟨kept, taken⟩ := parts
    obtain ⟨kept', taken'⟩ := parts'
    refine Computations.of_pure ?_
    split
    · exact ⟨hparts.1, List.Forall₂.cons hmember hparts.2⟩
    · exact ⟨List.Forall₂.cons hmember hparts.1, hparts.2⟩

end Queries

theorem mergedRecords_relocate (repository : Repository) (selector kind : String) :
    Computations relocation.Worlds
      (fun merged merged' => relocation.Groups merged.1 merged'.1 ∧ merged'.2 = merged.2)
      (mergedRecords repository selector kind)
      (mergedRecords (repository.relocate relocation) selector kind) := by
  have hplaced : Computations relocation.Worlds
      (fun merged merged' => relocation.Groups merged.1 merged'.1 ∧ merged'.2 = merged.2)
      (do
        let pool := (← get).pool
        let outcome := Merge.mergeAll pool
          (Repository.collect pool kind (repository.select selector).1)
        return (← Eval.place outcome, outcome.orphans))
      (do
        let pool := (← get).pool
        let outcome := Merge.mergeAll pool (Repository.collect pool kind
          ((repository.select selector).1.map (Mod.relocate relocation)))
        return (← Eval.place outcome, outcome.orphans)) := by
    refine Computations.of_get.of_bind fun world world' hworlds => ?_
    dsimp only
    rw [Repository.collect_relocate hworlds.pools, Merge.mergeAll_relocate hworlds.pools]
    generalize Merge.mergeAll world.pool _ = outcome
    exact Eval.place_relocate.of_bind fun _ _ hgroups => Computations.of_pure ⟨hgroups, rfl⟩
  unfold mergedRecords
  rw [Repository.select_relocate]
  dsimp only
  cases Repository.missingNotice? (repository.select selector).2 with
  | none => exact hplaced
  | some notice =>
    refine Computations.of_bind (Computations.of_modify fun _ _ hworlds => ?_)
      fun _ _ _ => hplaced
    exact ⟨hworlds.pools, hworlds.active, hworlds.draws, hworlds.stopping, hworlds.marks⟩

theorem resolveGroup_relocate (repository : Repository) (selector kind : String)
    {condition condition' : RecordRef → Eval Bool}
    (hconditions : relocation.Conditions condition condition') (mode : SelectionMode) :
    Computations relocation.Worlds relocation.Groups
      (resolveGroup repository selector kind condition mode)
      (resolveGroup (repository.relocate relocation) selector kind condition' mode) := by
  refine (mergedRecords_relocate repository selector kind).of_bind fun merged merged' hmerged => ?_
  obtain ⟨group, orphans⟩ := merged
  obtain ⟨group', orphans'⟩ := merged'
  refine (keepMatches_relocate hconditions mode
    (Relocation.forall₂_members_iff.mpr hmerged.1)).of_bind fun kept kept' hkept => ?_
  refine (Eval.note_relocate _ _ _ _).of_bind fun _ _ _ => Computations.of_pure ?_
  exact Relocation.forall₂_members_iff.mp hkept

/-! ## Steps of a run -/

namespace Run

theorem evaluate_relocate {Result Result' : Type} {related : Result → Result' → Prop}
    {evaluation : Setting → Eval Result} {evaluation' : Setting → Eval Result'}
    (hevaluation : ∀ setting setting', relocation.Settings setting setting' →
      setting.repository = repository →
      Computations relocation.Worlds related (evaluation setting) (evaluation' setting')) :
    Computations (relocation.Patchers repository seed) related (evaluate evaluation)
      (evaluate evaluation') := by
  refine Computations.of_get.of_bind fun patcher patcher' hpatchers => ?_
  obtain ⟨houtcomes, hworlds⟩ := (hevaluation patcher.setting patcher'.setting
    hpatchers.settings hpatchers.mods).run patcher.world patcher'.world hpatchers.worlds
  generalize (evaluation patcher.setting).run patcher.world = after,
    (evaluation' patcher'.setting).run patcher'.world = after' at houtcomes hworlds ⊢
  obtain ⟨outcome, world⟩ := after
  obtain ⟨outcome', world'⟩ := after'
  refine (Computations.of_set { hpatchers with worlds := hworlds }).of_bind fun _ _ _ => ?_
  cases houtcomes with
  | error fault => exact Computations.of_throw fault
  | ok hrelated => exact Computations.of_pure hrelated

theorem redefine_relocate {change change' : Environment → Environment}
    (hchange : ∀ environment environment', relocation.Environments environment environment' →
      relocation.Environments (change environment) (change' environment')) :
    Computations (relocation.Patchers repository seed) Eq (redefine change)
      (redefine change') :=
  Computations.of_modify fun _ _ hpatchers =>
    { hpatchers with environments := hchange _ _ hpatchers.environments }

theorem note_relocate (level : Level) (source : Source) (text text' : String) :
    Computations (relocation.Patchers repository seed) Eq (note level source text)
      (note level source text') :=
  Computations.of_modify fun _ _ hpatchers => hpatchers.note level source text text'

end Run

theorem partition_relocate (name : String) {condition condition' : Setting → RecordRef → Eval Bool}
    (hconditions : ∀ setting setting', relocation.Settings setting setting' →
      relocation.Conditions (condition setting) (condition' setting')) :
    Computations (relocation.Patchers repository seed)
      (fun groups groups' => relocation.Groups groups.1 groups'.1 ∧
        relocation.Groups groups.2 groups'.2)
      (partition name condition) (partition name condition') := by
  refine Computations.of_bind (show Computations (relocation.Patchers repository seed)
    (fun parts parts' : Group × List Member × List Member =>
      relocation.Groups ⟨parts.2.1⟩ ⟨parts'.2.1⟩ ∧ relocation.Groups ⟨parts.2.2⟩ ⟨parts'.2.2⟩)
    _ _ from Run.evaluate_relocate fun setting setting' hsettings _ => ?_) ?_
  · refine (Eval.agree_settle (Environment.group_relocate hsettings.environments name)).of_bind
      fun source source' hsource => ?_
    refine (splitMembers_relocate (hconditions setting setting' hsettings)
      (Relocation.forall₂_members_iff.mpr hsource)).of_bind fun parts parts' hparts => ?_
    obtain ⟨hkept, htaken⟩ := hparts
    exact Computations.of_pure ⟨Relocation.forall₂_members_iff.mp hkept,
      Relocation.forall₂_members_iff.mp htaken⟩
  · intro parts parts' hparts
    obtain ⟨source, kept, taken⟩ := parts
    obtain ⟨source', kept', taken'⟩ := parts'
    obtain ⟨hkept, htaken⟩ := hparts
    refine (Run.redefine_relocate fun environment environment' henvironments => ?_).of_bind
      fun _ _ _ => (Run.note_relocate _ _ _ _).of_bind fun _ _ _ =>
        Computations.of_pure ⟨hkept, htaken⟩
    exact Environment.define_relocate henvironments name (Relocation.values_group hkept)

/-! ## Statements -/

theorem definitionTexts_relocate {labels labels' : Labels}
    (hlabels : ∀ ref, labels' (relocation.ref ref) = labels ref) (environment : Environment) :
    definitionTexts (environment.relocate relocation) labels' =
      definitionTexts environment labels := by
  simp only [definitionTexts, Environment.relocate, Entries.convert, List.map_map]
  congr 1
  · refine List.map_congr_left fun entry _ => ?_
    have hdisplay := Value.display_relocate hlabels entry.2
    obtain ⟨name, value⟩ := entry
    cases value with
    | group group =>
      simp only [Function.comp_apply, Prod.map_apply, id_eq, Value.relocate, Group.size_relocate]
    | _ => exact congrArg (name ++ " = " ++ ·) hdisplay
  · refine List.map_congr_left fun entry _ => ?_
    simp

theorem listDefinitions_relocate :
    Computations (relocation.Patchers repository seed) Eq listDefinitions listDefinitions := by
  refine Computations.of_get.of_bind fun patcher patcher' hpatchers => ?_
  have htexts : definitionTexts patcher'.environment patcher'.world.pool.label =
      definitionTexts patcher.environment patcher.world.pool.label := by
    rw [hpatchers.environments.1, definitionTexts_relocate hpatchers.worlds.pools.label_ref]
  rw [hpatchers.listed, htexts]
  split
  · refine (Computations.of_set { hpatchers with listed := rfl }).of_bind fun _ _ _ => ?_
    refine Computations.of_forM (List.forall₂_same.mpr fun _ _ => rfl) fun text text' htext => ?_
    exact Run.note_relocate .debug .context text text'
  · exact Computations.of_pure rfl

theorem assign_relocate (target : Target) {node node' : Node}
    (hnodes : relocation.Nodes node node') :
    Computations (relocation.Patchers repository seed) Eq (assign target node)
      (assign target node') := by
  unfold assign
  cases target.key with
  | some key =>
    refine Run.redefine_relocate fun environment environment' henvironments => ?_
    exact Environment.setTableEntry_relocate henvironments target.name key hnodes
  | none =>
    refine (Run.evaluate_relocate fun setting setting' hsettings _ =>
      Node.evaluate_relocate hsettings hnodes none none Relocation.currents_none).of_bind
        fun value value' hvalues => ?_
    refine Run.redefine_relocate fun environment environment' henvironments => ?_
    exact Environment.define_relocate henvironments target.name hvalues

namespace Statement

theorem execute_relocate {statement statement' : Statement}
    (halike : Alike relocation statement statement') :
    Computations (relocation.Patchers repository seed) Eq statement.execute
      statement'.execute := by
  cases halike with
  | define target hexpression => exact assign_relocate target hexpression
  | query target selector definition hcondition =>
    refine (Run.evaluate_relocate fun setting setting' hsettings hrepository => ?_).of_bind
      fun group group' hgroups => assign_relocate target (Relocation.nodes_group hgroups)
    rw [hsettings.repository]
    exact resolveGroup_relocate setting.repository selector definition.kind
      (fun _ _ => Node.holds_relocate hsettings hcondition "group condition") definition.mode
  | extract target source hcondition =>
    refine (partition_relocate source fun setting setting' hsettings _ _ =>
      Node.holds_relocate hsettings hcondition "extraction condition").of_bind
        fun groups groups' hgroups => ?_
    exact assign_relocate target (Relocation.nodes_group hgroups.2)
  | @invoke expression _ hexpression =>
    obtain ⟨rfl, hfree⟩ := hexpression
    have hevaluate : Computations (relocation.Patchers repository seed) Eq
        (do let _ ← Run.evaluate fun setting => expression.evaluate setting none)
        (do let _ ← Run.evaluate fun setting =>
          (expression.relocate relocation).evaluate setting none) := by
      exact (Run.evaluate_relocate fun setting setting' hsettings _ =>
        Node.evaluate_relocate hsettings ⟨rfl, hfree⟩ none none
          Relocation.currents_none).of_bind fun _ _ _ => Computations.of_pure rfl
    unfold execute
    cases expression with
    | pipe left procedure arguments pairwise =>
      exact listDefinitions_relocate.of_bind fun _ _ _ => hevaluate
    | _ => exact hevaluate

end Statement

theorem executeLine_relocate (line : String) :
    Computations (relocation.Patchers repository seed) Eq (executeLine line)
      (executeLine line) := by
  refine Computations.of_get.of_bind fun patcher patcher' hpatchers => ?_
  have houtcomes := Statement.ofLine_relocate hpatchers.namings line
  generalize Statement.ofLine patcher.names line = outcome,
    Statement.ofLine patcher'.names line = outcome' at houtcomes ⊢
  cases houtcomes with
  | error fault => exact Computations.of_throw fault
  | ok halike => exact Statement.execute_relocate halike

/-! ## Scripts -/

theorem executeLines_relocate (number executed : Nat) (lines : List String)
    {patcher patcher' : Patcher}
    (hpatchers : relocation.Patchers repository seed patcher patcher') :
    (executeLines number executed lines patcher').1 =
        (executeLines number executed lines patcher).1 ∧
      relocation.Patchers repository seed (executeLines number executed lines patcher).2
        (executeLines number executed lines patcher').2 := by
  induction lines generalizing number executed patcher patcher' with
  | nil => exact ⟨rfl, hpatchers⟩
  | cons raw rest ih =>
    unfold executeLines
    rw [hpatchers.worlds.stopping]
    split
    · exact ⟨rfl, hpatchers⟩
    dsimp only
    split
    · exact ih (number + 1) executed hpatchers
    · obtain ⟨houtcomes, hafter⟩ :=
        (executeLine_relocate (stripComment raw)).run patcher patcher' hpatchers
      generalize (executeLine (stripComment raw)).run patcher = after,
        (executeLine (stripComment raw)).run patcher' = after' at houtcomes hafter ⊢
      obtain ⟨outcome, between⟩ := after
      obtain ⟨outcome', between'⟩ := after'
      dsimp only at houtcomes hafter ⊢
      cases houtcomes with
      | error fault => exact ⟨rfl, hafter⟩
      | ok _ => exact ih (number + 1) (executed + 1) hafter

end Patchwork
