import Patchwork.Proofs.Relocation.Runs

/-!
# Whole runs after a relocation

Running a script on corresponding mods gives the same result and leads to
corresponding patchers.  It also leads to the same place where mods are saved, if
saving a mod depends on nothing but its content.
-/

namespace Patchwork

open Agree

/-! ## Content -/

/-- The record without marks: numbers that are not one are all the same. -/
def Record.unmarked (record : Record) : Record :=
  record.remark fun _ => 0

/-- What a mod states and what has been deleted from it, wherever its records are. -/
structure ModContent where
  name : String
  dependencies : List Plain
  references : List Plain
  deleted : List String
  records : List Record

/-- The content of a mod. -/
def Mod.content (pool : Pool) (mod : Mod) : ModContent :=
  { name := mod.name
    dependencies := mod.dependencies
    references := mod.references
    deleted := mod.deleted
    records := mod.records.map fun own => (pool.get own).unmarked }

/-- Saving depends on nothing but the content of the mod that is saved. -/
def Save.ByContent {Place : Type} (save : Save Place) : Prop :=
  ∀ pool mod pool' mod', Mod.content pool mod = Mod.content pool' mod' →
    save pool mod = save pool' mod'

/-- Saving that counts how often it is done. -/
def Save.counted {Place : Type} (save : Save Place) : Save (Place × Nat) :=
  fun pool mod place =>
    ((save pool mod place.1).1, (save pool mod place.1).2, place.2 + 1)

theorem Save.ByContent.counted {Place : Type} {save : Save Place} (hsave : save.ByContent) :
    save.counted.ByContent := by
  intro pool mod pool' mod' hcontent
  funext place
  rw [Save.counted, Save.counted, hsave pool mod pool' mod' hcontent]

variable {relocation : Relocation} {repository : Repository} {seed : Option Int}

theorem Record.unmarked_remark (mark : Nat → Nat) (record : Record) :
    (record.remark mark).unmarked = record.unmarked :=
  Record.remark_remark mark (fun _ => 0) record

theorem Mod.content_relocate {left right : Pool} (hpools : relocation.Pools left right)
    (mod : Mod) : (mod.relocate relocation).content right = mod.content left := by
  have hrecords : (mod.relocate relocation).records.map
      (fun own => (right.get own).unmarked) =
        mod.records.map fun own => (left.get own).unmarked := by
    rw [Mod.records_relocate, List.map_map]
    refine List.map_congr_left fun own _ => ?_
    rw [Function.comp_apply, hpools.get, Record.unmarked_remark]
  simp only [Mod.content, hrecords, Mod.name_relocate, Mod.dependencies_relocate,
    Mod.references_relocate, Mod.deleted_relocate]

/-! ## Runs -/

namespace Relocation.Patchers

variable {left right : Patcher} {mod mod' : Mod}

theorem finish (hpatchers : relocation.Patchers repository seed left right)
    (result : RunResult) (phase : Phase) :
    (right.finish result phase).1 = (left.finish result phase).1 ∧
      relocation.Patchers repository seed (left.finish result phase).2
        (right.finish result phase).2 :=
  ⟨rfl, { hpatchers with }⟩

theorem failRun (hpatchers : relocation.Patchers repository seed left right)
    (result : RunResult) (message : String) :
    (right.failRun result message).1 = (left.failRun result message).1 ∧
      relocation.Patchers repository seed (left.failRun result message).2
        (right.failRun result message).2 :=
  (hpatchers.note .error .patching _ _).finish { result with error := some message } .failed

theorem notes (hpatchers : relocation.Patchers repository seed left right)
    (notices : List Notice) :
    relocation.Patchers repository seed
      (notices.foldl (fun patcher notice =>
        patcher.note notice.level notice.source notice.text) left)
      (notices.foldl (fun patcher notice =>
        patcher.note notice.level notice.source notice.text) right) := by
  induction notices generalizing left right with
  | nil => exact hpatchers
  | cons notice rest ih =>
    exact ih (hpatchers.note notice.level notice.source notice.text notice.text)

section Saving

variable {Place : Type} {save : Save Place} (hsave : save.ByContent)

include hsave

theorem saveRun (hpatchers : relocation.Patchers repository seed left right)
    (hmods : relocation.Mods mod mod') (place : Place) (result : RunResult) :
    (right.saveRun save place mod' result).1 = (left.saveRun save place mod result).1 ∧
      (right.saveRun save place mod' result).2.2 =
        (left.saveRun save place mod result).2.2 ∧
      relocation.Patchers repository seed (left.saveRun save place mod result).2.1
        (right.saveRun save place mod' result).2.1 := by
  have hcontent : mod'.content right.world.pool = mod.content left.world.pool := by
    rw [hmods.1, Mod.content_relocate hpatchers.worlds.pools]
  rw [Patcher.saveRun, Patcher.saveRun, hsave _ _ _ _ hcontent]
  generalize save left.world.pool mod place = saved
  obtain ⟨outcome, after⟩ := saved
  cases outcome with
  | error message =>
    obtain ⟨hresult, hafter⟩ := hpatchers.failRun result
      ("Could not save " ++ result.mod ++ ": " ++ message)
    exact ⟨hresult, rfl, hafter⟩
  | ok notices =>
    obtain ⟨hresult, hafter⟩ := ((hpatchers.notes notices).note .info .patching
      (result.mod ++ ": " ++ integerText result.linesExecuted ++ " statement(s) applied")
      (result.mod ++ ": " ++ integerText result.linesExecuted ++
        " statement(s) applied")).finish result .saved
    exact ⟨hresult, rfl, hafter⟩

theorem runPrepared (hmods : relocation.Mods mod mod')
    (hstart : relocation.Patchers repository seed (left.start mod) (right.start mod'))
    (place : Place) (lines : List String) (result : RunResult) :
    (right.runPrepared save place lines mod' result).1 =
        (left.runPrepared save place lines mod result).1 ∧
      (right.runPrepared save place lines mod' result).2.2 =
        (left.runPrepared save place lines mod result).2.2 ∧
      relocation.Patchers repository seed
        (left.runPrepared save place lines mod result).2.1
        (right.runPrepared save place lines mod' result).2.1 := by
  obtain ⟨hsame, hpatchers⟩ := executeLines_relocate 1 0 lines hstart
  rw [Patcher.runPrepared, Patcher.runPrepared]
  generalize executeLines 1 0 lines (left.start mod) = executed,
    executeLines 1 0 lines (right.start mod') = executed' at hsame hpatchers ⊢
  obtain ⟨⟨count, failure⟩, after⟩ := executed
  obtain ⟨counts', after'⟩ := executed'
  dsimp only at hsame hpatchers
  subst hsame
  dsimp only
  cases failure with
  | some failure =>
    obtain ⟨hresult, hafter⟩ := hpatchers.failRun
      { result with linesExecuted := count, failedLine := some failure.number } failure.message
    exact ⟨hresult, rfl, hafter⟩
  | none =>
    have hpatched : relocation.Mods (after.world.active.getD mod)
        (after'.world.active.getD mod') := by
      have hactive := hpatchers.worlds.active
      generalize after.world.active = active, after'.world.active = active' at hactive ⊢
      cases hactive with
      | none => exact hmods
      | some hactive => exact hactive
    have hdependencies : (after'.world.active.getD mod').dependencies =
        (after.world.active.getD mod).dependencies := by
      rw [hpatched.1, Mod.dependencies_relocate]
    have hreferences : (after'.world.active.getD mod').references =
        (after.world.active.getD mod).references := by
      rw [hpatched.1, Mod.references_relocate]
    dsimp only
    rw [hdependencies, hreferences, hpatchers.worlds.stopping]
    split
    · obtain ⟨hresult, hafter⟩ := (hpatchers.note .info .patching
        (result.mod ++ ": stopped after " ++ integerText count ++
          " statement(s), nothing saved")
        (result.mod ++ ": stopped after " ++ integerText count ++
          " statement(s), nothing saved")).finish
        { result with
          linesExecuted := count
          dependencies := (after.world.active.getD mod).dependencies
          references := (after.world.active.getD mod).references } .stopped
      exact ⟨hresult, rfl, hafter⟩
    · exact hpatchers.saveRun hsave hpatched place _

end Saving

end Relocation.Patchers

end Patchwork
