import Patchwork.Proofs.Mod.Amendments
import Patchwork.Proofs.Provenance.Headers

/-!
# Procedures on groups

A procedure that is applied to a group does its work on the records one after the other and ends
with the header of the mod being patched.  So what it amounts to is what the work amounts to.
-/

namespace Patchwork

/-! ## Groups -/

/-- The records of a group are in the pool, each once and under an identifier of its own. -/
structure Group.Apart (group : Group) (pool : Pool) : Prop where
  held : ∀ ref ∈ group.records, pool.Holds ref
  distinct : (group.records.map fun ref => (pool.get ref).id).Nodup

namespace Group.Apart

variable {group : Group} {pool : Pool}

theorem eq_of_id (hgroup : group.Apart pool) {first second : RecordRef}
    (hfirst : first ∈ group.records) (hsecond : second ∈ group.records)
    (hsame : (pool.get first).id = (pool.get second).id) : first = second :=
  List.inj_on_of_nodup_map hgroup.distinct hfirst hsecond hsame

theorem nodup (hgroup : group.Apart pool) : group.records.Nodup :=
  List.Nodup.of_map _ hgroup.distinct

theorem targets (hgroup : group.Apart pool) {mod : Mod}
    (hown : ∀ own ∈ mod.records, pool.Holds own) : Targets group.records pool mod where
  held := hgroup.held
  ownHeld := hown
  apart _ hfirst _ hsecond := hgroup.eq_of_id hfirst hsecond

end Group.Apart

/-! ## The end of a procedure -/

namespace Procedure

variable {procedure : Procedure} {targets : Group} {sources : Option Group} {mod patched : Mod}
  {applied : Nat} {worked after : World}

/-- The header of the mod being patched can always be written. -/
theorem exists_yields_conclude (hpatched : worked.active = some patched) :
    ∃ after, (procedure.conclude targets sources mod applied).Yields worked () after ∧
      after.marks = worked.marks := by
  have hend : ∀ {between : World} {later : Mod}, between.active = some later →
      ∃ after, (do
        Eval.onActive (Work.addDependencies (headerEntries targets mod))
        Eval.note .debug .procedures (procedure.name ++ " applied " ++ integerText applied ++
          " time(s)") : Eval Unit).Yields between () after ∧ after.marks = between.marks := by
    intro between later hlater
    refine ⟨_, Eval.yields_bind.mpr ⟨(), _, Eval.yields_onActive.mpr
      ⟨later, _, hlater, Work.yields_modify.mpr rfl, rfl⟩, rfl⟩, rfl⟩
  unfold conclude
  cases sources with
  | none => exact hend hpatched
  | some group =>
    let between : World :=
      { worked with active := some (patched.addReferences (headerEntries group mod)) }
    have hadd : (Eval.onActive (Work.addReferences (headerEntries group mod))).Yields worked ()
        between :=
      Eval.yields_onActive.mpr ⟨patched, _, hpatched, Work.yields_modify.mpr rfl, rfl⟩
    have hbetween : between.active = some (patched.addReferences (headerEntries group mod)) := rfl
    obtain ⟨after, hlast, hmarks⟩ := hend hbetween
    exact ⟨after, Eval.yields_bind.mpr ⟨(), between, hadd, hlast⟩, hmarks⟩

/-- Writing the header changes neither records nor which of them are in the mod. -/
theorem records_of_conclude
    (hyields : (procedure.conclude targets sources mod applied).Yields worked () after)
    (hpatched : worked.active = some patched) :
    after.pool = worked.pool ∧ ∃ final, after.active = some final ∧ final.name = patched.name ∧
      final.records = patched.records ∧ final.deleted = patched.deleted := by
  obtain ⟨hpool, hfinal⟩ := yields_conclude hyields hpatched
  exact ⟨hpool, _, hfinal, rfl, rfl, rfl⟩

theorem amended_conclude {refs : List RecordRef}
    (hyields : (procedure.conclude targets sources mod applied).Yields worked () after)
    (htargets : worked.HasTargets refs) : World.Amended refs (fun _ => []) worked after := by
  obtain ⟨patched, hpatched, -⟩ := htargets
  obtain ⟨hpool, final, hfinal, hname, hrecords, hdeleted⟩ := records_of_conclude hyields hpatched
  refine ⟨patched, final, hpatched, hfinal, ?_⟩
  rw [hpool]
  exact Amended.of_same hrecords hname hdeleted

end Procedure

/-! ## Pipes -/

namespace Node

variable {setting : Setting} {targets sources : Group} {procedure : Procedure}
  {arguments : List Node} {pairwise : Bool} {record : Option RecordRef} {before after : World}
  {value : Value}

/-- What a procedure with one group does. -/
theorem yields_pipe_of_one (hone : procedure.hasSource = false) :
    ((Node.pipe (.group targets) procedure arguments pairwise).evaluate setting record).Yields
        before value after ↔
      value = .group targets ∧ ∃ mod worked, before.active = some mod ∧
        (targets.records.forM (procedure.onTarget (deeperAt setting nestingLimit).call
          (argumentsWith (deeperAt setting nestingLimit) setting arguments))).Yields
            before () worked ∧
        (procedure.conclude targets none mod targets.size).Yields worked () after := by
  have hevaluate : (Node.pipe (.group targets) procedure arguments pairwise).evaluate setting
      record = (do
        procedure.apply (deeperAt setting nestingLimit).call
          (argumentsWith (deeperAt setting nestingLimit) setting arguments) targets pairwise
        return .group targets) := rfl
  rw [hevaluate, Procedure.apply_of_one _ _ _ _ hone]
  simp only [Eval.yields_bind, Eval.yields_pure, Eval.yields_requireActive]
  constructor
  · rintro ⟨_, _, ⟨mod, _, ⟨hmod, rfl⟩, _, worked, hworked, hend⟩, rfl, rfl⟩
    exact ⟨rfl, mod, worked, hmod, hworked, hend⟩
  · rintro ⟨rfl, mod, worked, hmod, hworked, hend⟩
    exact ⟨(), after, ⟨mod, before, ⟨hmod, rfl⟩, (), worked, hworked, hend⟩, rfl, rfl⟩

/-- What a procedure with two groups does. -/
theorem yields_pipe_of_two (htwo : procedure.hasSource = true) :
    ((Node.pipe (.group targets) procedure (.group sources :: arguments) pairwise).evaluate
        setting record).Yields before value after ↔
      value = .group targets ∧ ∃ mod paired worked, before.active = some mod ∧
        Procedure.pairs targets sources pairwise = .ok paired ∧
        (paired.forM fun pair => procedure.onPair (deeperAt setting nestingLimit).call
          (argumentsWith (deeperAt setting nestingLimit) setting (.group sources :: arguments))
            pair.1 pair.2).Yields before () worked ∧
        (procedure.conclude targets (some sources) mod paired.length).Yields worked () after := by
  have hevaluate : (Node.pipe (.group targets) procedure (.group sources :: arguments)
      pairwise).evaluate setting record = (do
        procedure.apply (deeperAt setting nestingLimit).call
          (argumentsWith (deeperAt setting nestingLimit) setting (.group sources :: arguments))
            targets pairwise
        return .group targets) := rfl
  have hsources : procedure.sourceGroup
      (argumentsWith (deeperAt setting nestingLimit) setting (.group sources :: arguments)) =
        pure sources := rfl
  rw [hevaluate, Procedure.apply_of_two _ _ _ _ htwo, hsources]
  simp only [Eval.yields_bind, Eval.yields_pure, Eval.yields_requireActive, Eval.yields_settle]
  constructor
  · rintro ⟨_, _, ⟨mod, _, ⟨hmod, rfl⟩, _, _, ⟨rfl, rfl⟩, paired, _, ⟨hpaired, rfl⟩, _, worked,
      hworked, hend⟩, rfl, rfl⟩
    exact ⟨rfl, mod, paired, worked, hmod, hpaired, hworked, hend⟩
  · rintro ⟨rfl, mod, paired, worked, hmod, hpaired, hworked, hend⟩
    exact ⟨(), after, ⟨mod, before, ⟨hmod, rfl⟩, sources, before, ⟨rfl, rfl⟩, paired, before,
      ⟨hpaired, rfl⟩, (), worked, hworked, hend⟩, rfl, rfl⟩

/-- Groups of different size do not go together, and nothing is written. -/
theorem run_pipe_of_uneven (htwo : procedure.hasSource = true) {mod : Mod}
    (hmod : before.active = some mod) (huneven : targets.size ≠ sources.size) :
    ((Node.pipe (.group targets) procedure (.group sources :: arguments) true).evaluate setting
        record).run before =
      (.error (.evaluation (.unevenPairs targets.size sources.size)), before) := by
  have hevaluate : (Node.pipe (.group targets) procedure (.group sources :: arguments)
      true).evaluate setting record = (do
        procedure.apply (deeperAt setting nestingLimit).call
          (argumentsWith (deeperAt setting nestingLimit) setting (.group sources :: arguments))
            targets true
        return .group targets) := rfl
  have hsources : procedure.sourceGroup
      (argumentsWith (deeperAt setting nestingLimit) setting (.group sources :: arguments)) =
        pure sources := rfl
  have hactive : Eval.requireActive.run before = (.ok mod, before) :=
    Eval.yields_requireActive.mpr ⟨hmod, rfl⟩
  have hpairs : Procedure.pairs targets sources true =
      .error (.evaluation (.unevenPairs targets.size sources.size)) := by
    rw [Procedure.pairs, if_pos rfl, if_neg huneven]
  rw [hevaluate, Procedure.apply_of_two _ _ _ _ htwo, hsources, Eval.run_bind, Eval.run_bind,
    hactive]
  simp only [pure_bind, hpairs]
  rfl

end Node

end Patchwork
