import Patchwork.Proofs.Provenance.Store

/-!
# Courses of evaluation

The course of an evaluation lists the deeds that the header of the mod being patched
has to tell of: the links that are written and the procedures that are completed, with
the groups they are applied to.  From a course one can read what has become of the
header, and why each record that is now in the mod is there.
-/

namespace Patchwork

open Eval

/-! ## Deeds -/

/-- Something that the header of the mod being patched has to tell of. -/
inductive Deed
  /-- A target has been linked to a source record, unless it was linked to it before. -/
  | linked (target source : RecordRef)
  /-- A procedure has been completed on a group, with a second one if it takes one. -/
  | applied (procedure : Procedure) (targets : Group) (sources : Option Group)

namespace Deed

/-- The groups a procedure was applied to. -/
def groups : Deed → List Group
  | linked _ _ => []
  | applied _ targets sources => targets :: sources.toList

/-- The members of the group a procedure was applied to. -/
def targets : Deed → List Member
  | linked _ _ => []
  | applied _ targets _ => targets.members

/-- The members of the second group a procedure was applied to. -/
def sources : Deed → List Member
  | linked _ _ => []
  | applied _ _ sources => sources.elim [] Group.members

end Deed

/-- What a mod's header has become when it has been told of a deed. -/
def Mod.credit (mod : Mod) : Deed → Mod
  | .linked _ _ => mod
  | .applied _ targets sources =>
    (mod.addReferences (sources.elim [] (Procedure.headerEntries · mod))).addDependencies
      (Procedure.headerEntries targets mod)

/-- What a mod's header has become when it has been told of some deeds in order. -/
def Mod.credited (mod : Mod) (deeds : List Deed) : Mod :=
  deeds.foldl Mod.credit mod

/-! ## How procedures begin and end -/

namespace Procedure

/-- The second group of a procedure that takes one. -/
def sourceGroup (procedure : Procedure) (arguments : List Argument) : Eval Group := do
  labelled ((← Eval.argument procedure.name arguments 0 none).expectGroup ·
    (procedure.name ++ " source group"))

/-- What a procedure does when the work on all records is done. -/
def conclude (procedure : Procedure) (targets : Group) (sources : Option Group) (mod : Mod)
    (applied : Nat) : Eval Unit := do
  if let some group := sources then onActive (Work.addReferences (headerEntries group mod))
  onActive (Work.addDependencies (headerEntries targets mod))
  note .debug .procedures (procedure.name ++ " applied " ++ integerText applied ++ " time(s)")

variable {procedure : Procedure} (caller : Caller) (arguments : List Argument) (targets : Group)
  (pairwise : Bool)

theorem apply_of_one (hone : procedure.hasSource = false) :
    procedure.apply caller arguments targets pairwise = (do
      let mod ← requireActive
      targets.records.forM (procedure.onTarget caller arguments)
      procedure.conclude targets none mod targets.size) := by
  simp only [apply, hone, Bool.false_eq_true, if_false, conclude, pure_bind]

theorem apply_of_two (htwo : procedure.hasSource = true) :
    procedure.apply caller arguments targets pairwise = (do
      let mod ← requireActive
      let sources ← procedure.sourceGroup arguments
      let paired ← settle (pairs targets sources pairwise)
      paired.forM fun pair => procedure.onPair caller arguments pair.1 pair.2
      procedure.conclude targets (some sources) mod paired.length) := by
  simp only [apply, htwo, if_true, conclude, sourceGroup, bind_assoc, pure_bind]

theorem mem_pairs {targets sources : Group} {pairwise : Bool}
    {paired : List (RecordRef × RecordRef)} (hpaired : pairs targets sources pairwise = .ok paired)
    {pair : RecordRef × RecordRef} (hpair : pair ∈ paired) :
    pair.1 ∈ targets.records ∧ pair.2 ∈ sources.records := by
  unfold pairs at hpaired
  split at hpaired
  · split at hpaired
    · cases hpaired
      exact List.of_mem_zip hpair
    · cases hpaired
  · cases hpaired
    obtain ⟨target, htarget, hpair⟩ := List.mem_flatMap.mp hpair
    obtain ⟨source, hsource, rfl⟩ := List.mem_map.mp hpair
    exact ⟨htarget, hsource⟩

end Procedure

/-! ## Courses -/

/-- The notices about completed procedures. -/
def World.reports (world : World) : List Notice :=
  world.journal.toList.filter fun notice => notice.source == .procedures

/-- Nothing has happened that the header has to tell of: no procedure has been completed,
no link has been changed, and every record that has come into the mod is a new one. -/
structure World.Quiet (before after : World) : Prop where
  onward : before.Onward after
  active : ∀ mod, before.active = some mod →
    ∃ later, after.active = some later ∧ later.dependencies = mod.dependencies ∧
      later.references = mod.references ∧
      ∀ own ∈ later.records, own ∈ mod.records ∨
        after.pool.Holds own ∧ (after.pool.get own).isNew = true
  links : ∀ ref, before.pool.Holds ref → (after.pool.get ref).links = (before.pool.get ref).links
  reports : after.reports = before.reports

/-- The operations that change a record and link it to nothing new. -/
inductive Work.Edits (target : RecordRef) : Work Unit → Prop
  | setField (name text : String) : Edits target (Work.setField target name text)
  | forceSetField (name text declared : String) :
      Edits target (Work.forceSetField target name text declared)
  | deleteRecord : Edits target (Work.deleteRecord target)
  | relink (link : Link) : Edits target (Work.relink target link)

theorem Work.Edits.writesTo {target : RecordRef} {work : Work Unit} (hwork : work.Edits target) :
    work.WritesTo target := by
  cases hwork with
  | setField name text => exact writesTo_setField name text
  | forceSetField name text declared => exact writesTo_forceSetField name text declared
  | deleteRecord => exact writesTo_deleteRecord
  | relink link => exact writesTo_relink link

/-- The records a procedure is being applied to, and those it takes as sources. -/
structure Operands where
  targets : List RecordRef := []
  sources : List RecordRef := []

/-- An evaluation that gives a result, with the deeds done on the way from the world before
to the world after it.  Records are changed and linked only as the operands of the procedure
that is being applied. -/
inductive Course : {Result : Type} → Operands → Eval Result → World → List Deed → Result →
    World → Prop
  | quiet {Result : Type} {operands : Operands} {evaluation : Eval Result} {before after : World}
      {result : Result} (hyields : evaluation.Yields before result after)
      (hquiet : before.Quiet after) : Course operands evaluation before [] result after
  | bind {Result Other : Type} {operands : Operands} {evaluation : Eval Result}
      {next : Result → Eval Other} {before between after : World} {first second : List Deed}
      {given : Result} {result : Other}
      (hfirst : Course operands evaluation before first given between)
      (hnext : Course operands (next given) between second result after) :
      Course operands (evaluation >>= next) before (first ++ second) result after
  | inside {Result : Type} {operands : Operands} {evaluation : Eval Result}
      {before after : World} {deeds : List Deed} {result : Result} (node : Node)
      (hinner : Course operands evaluation before deeds result after) :
      Course operands (insideLambda node evaluation) before deeds result after
  | edit {operands : Operands} {target : RecordRef} {work : Work Unit} {before after : World}
      (hwork : work.Edits target) (htarget : target ∈ operands.targets)
      (hheld : before.pool.Holds target) (hyields : (onActive work).Yields before () after) :
      Course operands (onActive work) before [] () after
  | link {operands : Operands} {target source : RecordRef} {category : String}
      {payload : Option (List Int)} {forced : Bool} {before after : World}
      (htarget : target ∈ operands.targets) (hsource : source ∈ operands.sources)
      (hheld : before.pool.Holds target)
      (hyields :
        (onActive (Work.addLink target source category payload forced)).Yields before () after) :
      Course operands (onActive (Work.addLink target source category payload forced)) before
        [.linked target source] () after
  | applyOne {operands : Operands} {caller : Caller} {procedure : Procedure}
      {arguments : List Argument} {targets : Group} {pairwise : Bool} {mod : Mod}
      {before worked after : World} {deeds : List Deed}
      (hone : procedure.hasSource = false) (hactive : before.active = some mod)
      (hwork : Course ⟨targets.records, []⟩
        (targets.records.forM (procedure.onTarget caller arguments)) before deeds () worked)
      (hend : (procedure.conclude targets none mod targets.size).Yields worked () after) :
      Course operands (procedure.apply caller arguments targets pairwise) before
        (deeds ++ [.applied procedure targets none]) () after
  | applyTwo {operands : Operands} {caller : Caller} {procedure : Procedure}
      {arguments : List Argument} {targets sources : Group} {pairwise : Bool} {mod : Mod}
      {before between worked after : World} {first second : List Deed}
      {paired : List (RecordRef × RecordRef)}
      (htwo : procedure.hasSource = true) (hactive : before.active = some mod)
      (hsources : Course operands (procedure.sourceGroup arguments) before first sources between)
      (hpaired : Procedure.pairs targets sources pairwise = .ok paired)
      (hwork : Course ⟨targets.records, sources.records⟩
        (paired.forM fun pair => procedure.onPair caller arguments pair.1 pair.2) between
        second () worked)
      (hend : (procedure.conclude targets (some sources) mod paired.length).Yields
        worked () after) :
      Course operands (procedure.apply caller arguments targets pairwise) before
        (first ++ second ++ [.applied procedure targets (some sources)]) () after

namespace Eval

theorem yields_requireActive {before after : World} {mod : Mod} :
    requireActive.Yields before mod after ↔ before.active = some mod ∧ before = after := by
  simp only [requireActive, yields_bind, yields_get]
  constructor
  · rintro ⟨_, _, ⟨rfl, rfl⟩, hmod⟩
    cases hactive : before.active with
    | none => simp [hactive] at hmod
    | some active => simpa [hactive] using hmod
  · rintro ⟨hactive, rfl⟩
    exact ⟨before, before, ⟨rfl, rfl⟩, by simp [hactive]⟩

theorem yields_insideLambda {Result : Type} {evaluation : Eval Result} {before after : World}
    {result : Result} (node : Node) (hyields : evaluation.Yields before result after) :
    (insideLambda node evaluation).Yields before result after := by
  rw [Yields] at hyields ⊢
  rw [insideLambda, Agree.Computations.run_tryCatch, hyields]

end Eval

/-- The course of an evaluation is one that the evaluation takes. -/
theorem Course.yields {Result : Type} {operands : Operands} {evaluation : Eval Result}
    {before after : World} {deeds : List Deed} {result : Result}
    (hcourse : Course operands evaluation before deeds result after) :
    evaluation.Yields before result after := by
  induction hcourse with
  | quiet hyields _ => exact hyields
  | bind _ _ ihfirst ihnext => exact yields_bind.mpr ⟨_, _, ihfirst, ihnext⟩
  | inside node _ ih => exact yields_insideLambda node ih
  | edit _ _ _ hyields => exact hyields
  | link _ _ _ hyields => exact hyields
  | applyOne hone hactive _ hend ih =>
    rw [Procedure.apply_of_one _ _ _ _ hone]
    refine yields_bind.mpr ⟨_, _, yields_requireActive.mpr ⟨hactive, rfl⟩, ?_⟩
    exact yields_bind.mpr ⟨_, _, ih, hend⟩
  | applyTwo htwo hactive _ hpaired _ hend ihsources ihwork =>
    rw [Procedure.apply_of_two _ _ _ _ htwo]
    refine yields_bind.mpr ⟨_, _, yields_requireActive.mpr ⟨hactive, rfl⟩, ?_⟩
    refine yields_bind.mpr ⟨_, _, ihsources, ?_⟩
    refine yields_bind.mpr ⟨_, _, yields_settle.mpr ⟨hpaired, rfl⟩, ?_⟩
    exact yields_bind.mpr ⟨_, _, ihwork, hend⟩

end Patchwork
