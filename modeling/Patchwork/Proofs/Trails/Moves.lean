import Patchwork.Proofs.Provenance.Deeds

/-!
# Trails of a run

Whatever a run does to the records and to the mod being patched is done in moves: merged
records are put into the pool, the store edits or clones a record, or the header gets new
entries.  A trail is a list of moves that lead from one world to another, one after the
other.
-/

namespace Patchwork

open Eval

/-! ## Moves -/

/-- A change to a record that is asked of the store. -/
inductive Edit
  | setField (name text : String)
  | forceSetField (name text declared : String)
  | delete
  | relink (link : Link)
  | addLink (source : RecordRef) (category : String) (payload : Option (List Int))
      (forced : Bool)

/-- The operation of the store that makes a change to a record. -/
def Edit.work (target : RecordRef) : Edit → Work Unit
  | setField name text => Work.setField target name text
  | forceSetField name text declared => Work.forceSetField target name text declared
  | delete => Work.deleteRecord target
  | relink link => Work.relink target link
  | addLink source category payload forced =>
    Work.addLink target source category payload forced

/-- Something that happens to the records or to the mod being patched. -/
inductive Move
  /-- Nothing happens to them. -/
  | rested
  /-- The merged records of a kind from some of the loaded mods are put into the pool. -/
  | placed (mods : List Mod) (kind : String)
  /-- A record is edited. -/
  | edited (target : RecordRef) (edit : Edit)
  /-- A record is cloned. -/
  | cloned (source : RecordRef) (count : Int)
  /-- The header gets dependencies. -/
  | depended (entries : List Plain)
  /-- The header gets references. -/
  | referred (entries : List Plain)

/-- A move leads from one world to another. -/
def Move.Leads (repository : Repository) : Move → World → World → Prop
  | rested, before, after => after.pool = before.pool ∧ after.active = before.active
  | placed mods kind, before, after =>
    mods ⊆ repository.list ∧ after.active = before.active ∧
      after.pool = ((Merge.mergeAll before.pool
        (Repository.collect before.pool kind mods)).place before.pool).1
  | edited target edit, before, after => (onActive (edit.work target)).Yields before () after
  | cloned source count, before, after =>
    ∃ clones, (onActive (Work.cloneRecord source count)).Yields before clones after
  | depended entries, before, after =>
    (onActive (Work.addDependencies entries)).Yields before () after
  | referred entries, before, after =>
    (onActive (Work.addReferences entries)).Yields before () after

/-- Moves that lead from one world to another, one after the other. -/
inductive Trail (repository : Repository) : World → List Move → World → Prop
  | done (world : World) : Trail repository world [] world
  | step {before between after : World} {move : Move} {rest : List Move}
      (hmove : move.Leads repository before between) (hrest : Trail repository between rest after) :
      Trail repository before (move :: rest) after

namespace Trail

variable {repository : Repository} {before between after : World} {first second : List Move}

theorem single {move : Move} (hmove : move.Leads repository before after) :
    Trail repository before [move] after :=
  .step hmove (.done after)

theorem append (hfirst : Trail repository before first between)
    (hsecond : Trail repository between second after) :
    Trail repository before (first ++ second) after := by
  induction hfirst with
  | done world => exact hsecond
  | step hmove _ ih => exact .step hmove (ih hsecond)

/-- A property of worlds that every move keeps holds at the end of a trail. -/
theorem keeps {holds : World → Prop}
    (hkeeps : ∀ {move : Move} {before after : World}, move ∈ first →
      move.Leads repository before after → holds before → holds after)
    (htrail : Trail repository before first after) (hbefore : holds before) : holds after := by
  induction htrail with
  | done world => exact hbefore
  | step hmove _ ih =>
    exact ih (fun hmem => hkeeps (List.mem_cons_of_mem _ hmem))
      (hkeeps List.mem_cons_self hmove hbefore)

end Trail

/-! ## Moves go on -/

theorem Edit.writesTo (target : RecordRef) (edit : Edit) : (edit.work target).WritesTo target := by
  cases edit with
  | setField name text => exact Work.writesTo_setField name text
  | forceSetField name text declared => exact Work.writesTo_forceSetField name text declared
  | delete => exact Work.writesTo_deleteRecord
  | relink link => exact Work.writesTo_relink link
  | addLink source category payload forced =>
    exact Work.writesTo_addLink source category payload forced

/-- Clones are new records at the end of the mod, and all other records are as they were. -/
theorem World.clones_of_yields {before after : World} {source : RecordRef} {count : Int}
    {clones : List RecordRef}
    (hyields : (onActive (Work.cloneRecord source count)).Yields before clones after) :
    ∃ mod, before.active = some mod ∧
      after.active = some { mod with records := mod.records ++ clones } ∧
      ∃ early late, early.pool = before.pool ∧ early.mod = mod ∧ late.pool = after.pool ∧
        Work.Clones (before.pool.get source) count.toNat (mod.nextIdNumber before.pool) clones
          early late := by
  obtain ⟨mod, bench, hmod, hbench, rfl⟩ := yields_onActive.mp hyields
  obtain ⟨text, between, hclones, rfl⟩ := Work.clones_cloneRecord hbench
  refine ⟨mod, hmod, congrArg some hclones.mod, _, between, rfl, rfl, rfl, hclones⟩

namespace Move

variable {repository : Repository} {before after : World} {move : Move}

/-- A change to the mod that keeps its name and records leads onward. -/
theorem onward_of_header (alter : Mod → Mod) (halter : ∀ pool mod, Mod.Onward pool mod (alter mod))
    (hyields : (onActive (modify fun bench : Workbench =>
      { bench with mod := alter bench.mod } : Work PUnit)).Yields before () after) :
    before.Onward after := by
  obtain ⟨mod, bench, hmod, hbench, rfl⟩ := yields_onActive.mp hyields
  obtain rfl := Work.yields_modify.mp hbench
  refine ⟨Pool.Retains.refl _, fun other hother => ⟨alter mod, rfl, ?_⟩⟩
  obtain rfl := Option.some.inj (hmod.symm.trans hother)
  exact halter _ _

/-- A move leads onward: records stay, and what they are called and where they come from
stays. -/
theorem onward (hmove : move.Leads repository before after) : before.Onward after := by
  cases move with
  | rested =>
    obtain ⟨hpool, hactive⟩ := hmove
    exact World.Onward.of_retains (hpool ▸ Pool.Retains.refl _) hactive
  | placed mods kind =>
    obtain ⟨-, hactive, hpool⟩ := hmove
    refine World.Onward.of_retains ?_ hactive
    rw [hpool]
    exact (Merge.keptIn_place _ before.pool).retains
  | edited target edit =>
    obtain ⟨mod, bench, hmod, hbench, rfl⟩ := yields_onActive.mp hmove
    have hwrites := edit.writesTo target _ _ _ hbench
    refine ⟨hwrites.retains, fun other hother => ⟨bench.mod, rfl, ?_⟩⟩
    obtain rfl := Option.some.inj (hmod.symm.trans hother)
    exact hwrites.onward
  | cloned source count =>
    obtain ⟨clones, hyields⟩ := hmove
    obtain ⟨mod, hmod, hafter, early, late, hearly, -, hlate, hclones⟩ :=
      World.clones_of_yields hyields
    refine ⟨hearly ▸ hlate ▸ hclones.kept.retains, fun other hother => ⟨_, hafter, ?_⟩⟩
    obtain rfl := Option.some.inj (hmod.symm.trans hother)
    exact ⟨rfl, List.Subset.refl _, fun own hown _ => Or.inl (List.mem_append_left _ hown)⟩
  | depended entries =>
    exact onward_of_header (Mod.addDependencies · entries)
      (fun _ _ => ⟨rfl, List.Subset.refl _, fun _ hown _ => Or.inl hown⟩) hmove
  | referred entries =>
    exact onward_of_header (Mod.addReferences · entries)
      (fun _ _ => ⟨rfl, List.Subset.refl _, fun _ hown _ => Or.inl hown⟩) hmove

end Move

theorem Trail.onward {repository : Repository} {before after : World} {moves : List Move}
    (htrail : Trail repository before moves after) : before.Onward after := by
  induction htrail with
  | done world => exact World.Onward.refl world
  | step hmove _ ih => exact (Move.onward hmove).trans ih

theorem Pool.Retains.size_le {pool later : Pool} (hretains : pool.Retains later) :
    pool.records.size ≤ later.records.size := by
  rcases Nat.eq_zero_or_pos pool.records.size with hnone | hsome
  · rw [hnone]
    exact Nat.zero_le _
  · have hlast : later.Holds ⟨pool.records.size - 1⟩ :=
      hretains.holds ⟨pool.records.size - 1⟩ (Nat.sub_one_lt_of_lt hsome)
    exact Nat.le_of_pred_lt hlast

end Patchwork
