import Patchwork.Proofs.Mod.StoreInvariant
import Patchwork.Proofs.Provenance.Origins

/-!
# What the store does to records and header

A write leaves the header alone, and the only record it can add to the mod overrides
the record it writes to.  Cloning leaves the header alone and adds new records under
new identifiers.  Whatever the store does, the mod and its records go on.
-/

namespace Patchwork

/-! ## Writes -/

/-- A write to a record has been made: the header is as it was, and a record that the
mod did not have overrides the one that was written to. -/
structure Workbench.Writes (target : RecordRef) (before after : Workbench) : Prop where
  retains : before.pool.Retains after.pool
  onward : before.mod.Onward before.pool after.mod
  dependencies : after.mod.dependencies = before.mod.dependencies
  references : after.mod.references = before.mod.references
  records : ∀ own ∈ after.mod.records, own ∈ before.mod.records ∨
    after.pool.Holds own ∧ (after.pool.get own).id = (before.pool.get target).id

theorem Workbench.Writes.of_same {before after : Workbench} (target : RecordRef)
    (hretains : before.pool.Retains after.pool) (hmod : after.mod = before.mod) :
    before.Writes target after where
  retains := hretains
  onward := hmod ▸ Mod.Onward.refl _ _
  dependencies := by rw [hmod]
  references := by rw [hmod]
  records own hown := Or.inl (hmod ▸ hown)

theorem Record.retained_setField (name : String) (value : Plain) :
    Record.Retained fun record => record.setField name value :=
  ⟨fun _ => rfl, fun _ => rfl, fun _ => rfl⟩

theorem Record.retained_setLink (link : Link) :
    Record.Retained fun record => record.setLink link :=
  ⟨fun _ => rfl, fun _ => rfl, fun _ => rfl⟩

theorem Record.Edit.retained_apply (edit : Record.Edit) : Record.Retained edit.apply := by
  cases edit with
  | field name value => exact Record.retained_setField name value
  | link written => exact Record.retained_setLink written

namespace Work

variable {Result Other : Type} {target : RecordRef}

/-- An operation that writes to a record if it gives a result. -/
def WritesTo (target : RecordRef) (work : Work Result) : Prop :=
  ∀ before result after, work.Yields before result after → before.Writes target after

theorem KeepsRecords.writesTo {work : Work Result} (hkeeps : work.KeepsRecords)
    (target : RecordRef) : work.WritesTo target := by
  intro before result after hyields
  obtain ⟨hpool, hmod⟩ := hkeeps before result after hyields
  exact Workbench.Writes.of_same target (hpool ▸ Pool.Retains.refl _) hmod

theorem WritesTo.after {work : Work Result} {next : Result → Work Other}
    (hkeeps : work.KeepsRecords) (hnext : ∀ result, (next result).WritesTo target) :
    WritesTo target (work >>= next) := by
  intro before result after hyields
  obtain ⟨given, between, hfirst, hrest⟩ := yields_bind.mp hyields
  obtain ⟨hpool, hmod⟩ := hkeeps before given between hfirst
  have hwrites := hnext given between result after hrest
  exact {
    retains := hpool ▸ hwrites.retains
    onward := hmod ▸ hpool ▸ hwrites.onward
    dependencies := hmod ▸ hwrites.dependencies
    references := hmod ▸ hwrites.references
    records := hmod ▸ hpool ▸ hwrites.records }

theorem writesTo_throw (fault : Fault) : (throw fault : Work Result).WritesTo target :=
  fun _ _ _ hyields => absurd hyields not_yields_throw

theorem writesTo_write {edit : Record → Record} (hedit : Record.Retained edit) :
    (write target edit).WritesTo target := by
  intro before result after hyields
  obtain ⟨own, between, hown, hmod, hpool⟩ := yields_write hyields
  have hretains : between.pool.Retains after.pool := by
    rw [hpool]
    split
    · exact Pool.retains_modify hedit _ _
    · exact (Pool.retains_modify hedit _ _).trans (Pool.retains_modify hedit _ _)
  obtain ⟨-, ⟨-, rfl⟩ | ⟨-, rfl, hadded, hbetween⟩⟩ := yields_ownVersion hown
  · exact Workbench.Writes.of_same target hretains hmod
  · have hheld : between.pool.Holds before.pool.nextRef := by
      rw [hadded]
      exact before.pool.holds_add_nextRef _
    have hid : (between.pool.get before.pool.nextRef).id = (before.pool.get target).id := by
      rw [hadded, Pool.get_add_nextRef]
    have hmods : after.mod = before.mod.addRecord before.pool.nextRef := hmod.trans hbetween
    have hkept : before.pool.Retains between.pool := by
      rw [hadded]
      exact (before.pool.keptIn_add _).retains
    exact {
      retains := hkept.trans hretains
      onward := by
        rw [hmods]
        refine ⟨rfl, List.Subset.refl _, fun other hother _ => Or.inl ?_⟩
        exact List.mem_append_left _ hother
      dependencies := by rw [hmods]; rfl
      references := by rw [hmods]; rfl
      records := by
        intro other hother
        rw [hmods] at hother
        rcases List.mem_append.mp hother with hold | hlast
        · exact Or.inl hold
        · rw [List.mem_singleton.mp hlast]
          exact Or.inr ⟨hretains.holds _ hheld, (hretains.id _ hheld).trans hid⟩ }

theorem writesTo_setField (name text : String) : (setField target name text).WritesTo target := by
  unfold setField
  refine WritesTo.after (keepsRecords_record target) fun record => ?_
  split
  · exact writesTo_throw _
  · refine WritesTo.after (keepsRecords_lift _) fun converted => ?_
    refine WritesTo.after (keepsRecords_mark converted) fun value => ?_
    exact writesTo_write (Record.retained_setField name value)

theorem writesTo_forceSetField (name text declared : String) :
    (forceSetField target name text declared).WritesTo target := by
  unfold forceSetField
  split
  · exact writesTo_throw _
  · refine WritesTo.after (keepsRecords_lift _) fun converted => ?_
    refine WritesTo.after (keepsRecords_mark converted) fun value => ?_
    exact writesTo_write (Record.retained_setField name value)

theorem writesTo_relink (link : Link) : (relink target link).WritesTo target :=
  writesTo_write (Record.retained_setLink link)

theorem writesTo_addLink (source : RecordRef) (category : String) (payload : Option (List Int))
    (forced : Bool) : (addLink target source category payload forced).WritesTo target := by
  unfold addLink
  refine WritesTo.after (keepsRecords_record target) fun record => ?_
  refine WritesTo.after (keepsRecords_record source) fun linked => ?_
  split
  · exact (keepsRecords_note _).writesTo target
  · exact writesTo_write (Record.retained_setLink _)

theorem writesTo_deleteRecord : (deleteRecord target).WritesTo target := by
  intro before result after hyields
  obtain ⟨-, rfl⟩ | ⟨-, ⟨-, hwrite⟩ | ⟨own, hfind, -, hpool, hmod⟩⟩ :=
    yields_deleteRecord hyields
  · exact Workbench.Writes.of_same target (Pool.Retains.refl _) rfl
  · exact writesTo_write (Record.retained_setField _ _) _ _ _ hwrite
  · obtain ⟨-, hid⟩ := Mod.mem_of_find? hfind
    exact {
      retains := hpool ▸ Pool.retains_modify (Record.retained_setField _ _) _ _
      onward := by
        rw [hmod]
        refine ⟨rfl, List.subset_append_left _ _, fun other hother _ => ?_⟩
        by_cases hsame : other = own
        · exact Or.inr (List.mem_append_right _ (by simp [hsame, hid]))
        · exact Or.inl ((List.mem_erase_of_ne hsame).mpr hother)
      dependencies := by rw [hmod]
      references := by rw [hmod]
      records := by
        intro other hother
        rw [hmod] at hother
        exact Or.inl (List.mem_of_mem_erase hother) }

/-! ## Clones -/

/-- Clones have been added to the mod: new records, at new places, and nothing else. -/
structure Clones (source : Record) (count number : Nat) (clones : List RecordRef)
    (before after : Workbench) : Prop where
  kept : before.pool.KeptIn after.pool
  mod : after.mod = { before.mod with records := before.mod.records ++ clones }
  journal : after.journal = before.journal
  made : clones.map after.pool.get = (List.range' number count).map fun given =>
    { cloneOf source given before.mod.name with mod := before.mod.name }
  fresh : ∀ clone ∈ clones, ¬ before.pool.Holds clone ∧ after.pool.Holds clone
  only : ∀ ref, after.pool.Holds ref → ¬ before.pool.Holds ref → ref ∈ clones

theorem clones_appendClones {source : Record} {count number : Nat} {clones : List RecordRef}
    {before after : Workbench}
    (hyields : (appendClones source before.mod.name count number).Yields before clones after) :
    Clones source count number clones before after := by
  induction count generalizing number before clones with
  | zero =>
    obtain ⟨rfl, rfl⟩ := yields_pure.mp hyields
    exact ⟨Pool.KeptIn.refl _, by simp, rfl, rfl, fun _ hclone => (nomatch hclone),
      fun _ hheld hnew => absurd hheld hnew⟩
  | succ count ih =>
    rw [appendClones] at hyields
    obtain ⟨clone, between, happend, hrest⟩ := yields_bind.mp hyields
    obtain ⟨rfl, hbetween⟩ := yields_append.mp happend
    obtain ⟨others, last, hothers, hresult⟩ := yields_bind.mp hrest
    obtain ⟨rfl, rfl⟩ := yields_pure.mp hresult
    have hpool : between.pool = before.pool.add
        { cloneOf source number before.mod.name with mod := before.mod.name } := hbetween ▸ rfl
    have hmod : between.mod = before.mod.addRecord before.pool.nextRef := hbetween ▸ rfl
    have hname : between.mod.name = before.mod.name := hmod ▸ rfl
    rw [← hname] at hothers
    have hclones := ih hothers
    have hadded : before.pool.KeptIn between.pool := hpool ▸ before.pool.keptIn_add _
    have hheld : between.pool.Holds before.pool.nextRef :=
      hpool ▸ before.pool.holds_add_nextRef _
    exact {
      kept := hadded.trans hclones.kept
      mod := by
        rw [hclones.mod, hmod]
        simp [Mod.addRecord]
      journal := hclones.journal.trans (hbetween ▸ rfl)
      made := by
        rw [List.map_cons, List.range'_succ, List.map_cons, hclones.made, hname,
          (hclones.kept _ hheld).2, hpool, Pool.get_add_nextRef]
      fresh := by
        intro other hother
        rcases List.mem_cons.mp hother with rfl | hother
        · exact ⟨before.pool.not_holds_nextRef, (hclones.kept _ hheld).1⟩
        · obtain ⟨hnew, hlast⟩ := hclones.fresh other hother
          exact ⟨fun hold => hnew (hadded other hold).1, hlast⟩
      only := by
        intro ref hlast hnew
        by_cases hbetween : between.pool.Holds ref
        · rw [(Pool.holds_add_iff.mp (hpool ▸ hbetween)).resolve_left hnew]
          exact List.mem_cons_self
        · exact List.mem_cons_of_mem _ (hclones.only ref hlast hbetween) }

theorem clones_cloneRecord {ref : RecordRef} {count : Int} {clones : List RecordRef}
    {before after : Workbench} (hyields : (cloneRecord ref count).Yields before clones after) :
    ∃ text, ∃ between : Workbench,
      Clones (before.pool.get ref) count.toNat (before.mod.nextIdNumber before.pool) clones before
          between ∧
      { between with journal := between.journal.push ⟨.debug, .records, text⟩ } = after := by
  obtain ⟨text, between, hclones, hafter⟩ := yields_cloneRecord hyields
  exact ⟨text, between, clones_appendClones hclones, hafter⟩

theorem Clones.distinct {source : Record} {count number : Nat} {clones : List RecordRef}
    {before after : Workbench} (hclones : Clones source count number clones before after) :
    (clones.map fun clone => (after.pool.get clone).id).Nodup := by
  have hids : (clones.map fun clone => (after.pool.get clone).id) =
      (List.range' number count).map fun given : Nat =>
        integerText given ++ "-" ++ before.mod.name := by
    have hmade := congrArg (List.map Record.id) hclones.made
    rw [List.map_map, List.map_map] at hmade
    exact hmade
  rw [hids]
  refine List.Nodup.map (fun first second hsame => ?_) List.nodup_range'
  have hnumber := congrArg Mod.idNumber? hsame
  rw [Mod.idNumber?_numbered, Mod.idNumber?_numbered] at hnumber
  exact Option.some.inj hnumber

theorem Clones.of_mem {source : Record} {count number : Nat} {clones : List RecordRef}
    {before after : Workbench} (hclones : Clones source count number clones before after)
    {clone : RecordRef} (hclone : clone ∈ clones) :
    (after.pool.get clone).mod = before.mod.name ∧ (after.pool.get clone).isNew = true ∧
      ∃ given, number ≤ given ∧
        (after.pool.get clone).id = integerText given ++ "-" ++ before.mod.name := by
  have hmem := List.mem_map_of_mem (f := after.pool.get) hclone
  rw [hclones.made] at hmem
  obtain ⟨given, hrange, hgiven⟩ := List.mem_map.mp hmem
  rw [← hgiven]
  exact ⟨rfl, rfl, given, (List.mem_range'_1.mp hrange).1, rfl⟩

end Work

end Patchwork
