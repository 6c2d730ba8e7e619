import Patchwork.Proofs.Agreement
import Patchwork.Proofs.Evaluation.Yields

/-!
# Store operations that give a result

When an operation on the workbench gives a result, what it leads to, and what
that means for the world of the run.
-/

namespace Patchwork

namespace Work

variable {Result Other : Type}

/-- An operation gives `result` and leads from the workbench `before` to the
workbench `after`. -/
def Yields (work : Work Result) (before : Workbench) (result : Result)
    (after : Workbench) : Prop :=
  work.run before = (.ok result, after)

@[simp]
theorem yields_pure {given result : Result} {before after : Workbench} :
    (pure given : Work Result).Yields before result after ↔
      given = result ∧ before = after := by
  change (Except.ok given, before) = (Except.ok result, after) ↔ _
  simp

theorem yields_bind {work : Work Result} {next : Result → Work Other}
    {before after : Workbench} {result : Other} :
    (work >>= next).Yields before result after ↔
      ∃ given between, work.Yields before given between ∧
        (next given).Yields between result after := by
  simp only [Yields, Agree.Computations.run_bind]
  constructor
  · intro hyields
    cases hrun : work.run before with
    | mk outcome between =>
      rw [hrun] at hyields
      cases outcome with
      | ok given => exact ⟨given, between, rfl, hyields⟩
      | error fault => cases hyields
  · rintro ⟨given, between, hfirst, hnext⟩
    rw [hfirst]
    exact hnext

@[simp]
theorem yields_get {before after result : Workbench} :
    (get : Work Workbench).Yields before result after ↔
      before = result ∧ before = after := by
  change (Except.ok before, before) = (Except.ok result, after) ↔ _
  simp

@[simp]
theorem yields_set {before after bench : Workbench} {result : PUnit} :
    (set bench : Work PUnit).Yields before result after ↔ bench = after := by
  change (Except.ok PUnit.unit, bench) = (Except.ok result, after) ↔ _
  simp

@[simp]
theorem yields_modify {before after : Workbench} {change : Workbench → Workbench}
    {result : PUnit} :
    (modify change : Work PUnit).Yields before result after ↔ change before = after := by
  change (Except.ok PUnit.unit, change before) = (Except.ok result, after) ↔ _
  simp

@[simp]
theorem not_yields_throw {fault : Fault} {result : Result} {before after : Workbench} :
    ¬ (throw fault : Work Result).Yields before result after := by
  intro hyields
  cases hyields

@[simp]
theorem yields_record {ref : RecordRef} {before after : Workbench} {result : Record} :
    (record ref).Yields before result after ↔
      before.pool.get ref = result ∧ before = after := by
  simp only [record, yields_bind, yields_get, yields_pure]
  constructor
  · rintro ⟨_, _, ⟨rfl, rfl⟩, hget, rfl⟩
    exact ⟨hget, rfl⟩
  · rintro ⟨hget, rfl⟩
    exact ⟨before, before, ⟨rfl, rfl⟩, hget, rfl⟩

theorem yields_lift {outcome : Except Fault Result} {before after : Workbench}
    {result : Result} (hyields : (liftM outcome : Work Result).Yields before result after) :
    outcome = .ok result ∧ before = after := by
  cases outcome with
  | error fault => cases hyields
  | ok given =>
    cases hyields
    exact ⟨rfl, rfl⟩

/-- Two workbenches with the same records in the same mod. -/
structure SameRecords (before after : Workbench) : Prop where
  pool : after.pool = before.pool
  mod : after.mod = before.mod

theorem sameRecords_of_mark {value given : Plain} {before after : Workbench}
    (hyields : (mark value).Yields before given after) : SameRecords before after := by
  unfold mark at hyields
  split at hyields
  · simp only [yields_bind, yields_get, yields_set, yields_pure] at hyields
    obtain ⟨bench, _, ⟨rfl, rfl⟩, _, _, rfl, _, rfl⟩ := hyields
    exact ⟨rfl, rfl⟩
  · obtain ⟨-, rfl⟩ := yields_pure.mp hyields
    exact ⟨rfl, rfl⟩

@[simp]
theorem yields_note {text : String} {before after : Workbench} {result : PUnit} :
    (note text).Yields before result after ↔
      { before with journal := before.journal.push ⟨.debug, .records, text⟩ } = after :=
  yields_modify

@[simp]
theorem yields_change {ref : RecordRef} {edit : Record → Record} {before after : Workbench}
    {result : PUnit} :
    (change ref edit).Yields before result after ↔
      { before with pool := before.pool.modify ref edit } = after :=
  yields_modify

theorem yields_append {record : Record} {before after : Workbench} {ref : RecordRef} :
    (append record).Yields before ref after ↔
      before.pool.nextRef = ref ∧
        { before with
          pool := before.pool.add { record with mod := before.mod.name }
          mod := before.mod.addRecord before.pool.nextRef } = after := by
  simp only [append, yields_bind, yields_get, yields_set, yields_pure]
  constructor
  · rintro ⟨_, _, ⟨rfl, rfl⟩, _, _, rfl, rfl, rfl⟩
    exact ⟨rfl, rfl⟩
  · rintro ⟨rfl, rfl⟩
    exact ⟨before, before, ⟨rfl, rfl⟩, ⟨⟩, _, rfl, rfl, rfl⟩

/-! ## Operations that keep the records -/

/-- An operation that leaves the mod and the records as they are. -/
def KeepsRecords (work : Work Result) : Prop :=
  ∀ before result after, work.Yields before result after → SameRecords before after

theorem keepsRecords_record (ref : RecordRef) : (record ref).KeepsRecords := by
  intro before result after hyields
  obtain ⟨-, rfl⟩ := yields_record.mp hyields
  exact ⟨rfl, rfl⟩

theorem keepsRecords_lift (outcome : Except Fault Result) :
    (liftM outcome : Work Result).KeepsRecords := by
  intro before result after hyields
  obtain ⟨-, rfl⟩ := yields_lift hyields
  exact ⟨rfl, rfl⟩

theorem keepsRecords_mark (value : Plain) : (mark value).KeepsRecords :=
  fun _ _ _ hyields => sameRecords_of_mark hyields

theorem keepsRecords_note (text : String) : (note text).KeepsRecords := by
  intro before result after hyields
  rw [yields_note] at hyields
  subst hyields
  exact ⟨rfl, rfl⟩

/-! ## Own versions -/

/-- The own version of a record is the one there is, or an override that is
made. -/
theorem yields_ownVersion {ref own : RecordRef} {before after : Workbench}
    (hyields : (ownVersion ref).Yields before own after) :
    (before.pool.get ref).id ∉ before.mod.deleted ∧
      ((before.mod.find? before.pool (before.pool.get ref).id = some own ∧ after = before) ∨
        (before.mod.find? before.pool (before.pool.get ref).id = none ∧
          own = before.pool.nextRef ∧
          after.pool = before.pool.add {
            id := (before.pool.get ref).id
            kind := (before.pool.get ref).kind
            name := (before.pool.get ref).name
            mod := before.mod.name } ∧
          after.mod = before.mod.addRecord before.pool.nextRef)) := by
  unfold ownVersion at hyields
  obtain ⟨bench, _, hget, hrest⟩ := yields_bind.mp hyields
  obtain ⟨rfl, rfl⟩ := yields_get.mp hget
  by_cases hdeleted : (before.pool.get ref).id ∈ before.mod.deleted
  · simp [hdeleted] at hrest
  · simp only [List.contains_eq_mem, hdeleted, decide_false, Bool.false_eq_true,
      if_false] at hrest
    refine ⟨hdeleted, ?_⟩
    cases hfind : before.mod.find? before.pool (before.pool.get ref).id with
    | some found =>
      rw [hfind] at hrest
      obtain ⟨rfl, rfl⟩ := yields_pure.mp hrest
      exact Or.inl ⟨rfl, rfl⟩
    | none =>
      rw [hfind] at hrest
      obtain ⟨made, between, happend, hnote⟩ := yields_bind.mp hrest
      obtain ⟨rfl, rfl⟩ := yields_append.mp happend
      obtain ⟨_, noted, hnoted, hresult⟩ := yields_bind.mp hnote
      obtain ⟨rfl, rfl⟩ := yields_pure.mp hresult
      rw [yields_note] at hnoted
      subst hnoted
      exact Or.inr ⟨rfl, rfl, rfl, rfl⟩

/-- A change is written to the own version and, if that is another record, to
the record itself. -/
theorem yields_write {ref : RecordRef} {edit : Record → Record} {before after : Workbench}
    {result : PUnit} (hyields : (write ref edit).Yields before result after) :
    ∃ own between, (ownVersion ref).Yields before own between ∧
      after.mod = between.mod ∧
      after.pool =
        if own = ref then between.pool.modify own edit
        else (between.pool.modify own edit).modify ref edit := by
  unfold write at hyields
  obtain ⟨own, between, hown, hrest⟩ := yields_bind.mp hyields
  obtain ⟨_, changed, hchange, hlast⟩ := yields_bind.mp hrest
  rw [yields_change] at hchange
  subst hchange
  refine ⟨own, between, hown, ?_⟩
  by_cases hsame : own = ref
  · simp only [hsame, ne_eq, not_true_eq_false, if_false] at hlast
    obtain ⟨-, rfl⟩ := yields_pure.mp hlast
    exact ⟨rfl, by simp [hsame]⟩
  · simp only [hsame, ne_eq, not_false_eq_true, if_true, yields_change] at hlast
    subst hlast
    exact ⟨rfl, by simp [hsame]⟩

/-- A record that is deleted already stays as it is, one that the mod introduces is taken
out of it and marked, and any other one is marked only. -/
theorem yields_deleteRecord {ref : RecordRef} {before after : Workbench} {result : PUnit}
    (hyields : (deleteRecord ref).Yields before result after) :
    ((before.pool.get ref).id ∈ before.mod.deleted ∧ after = before) ∨
      (before.pool.get ref).id ∉ before.mod.deleted ∧
        (((∀ own, before.mod.find? before.pool (before.pool.get ref).id = some own →
              (before.pool.get own).isNew = false) ∧
            (write ref fun record => record.setField Record.removedField (.bool true)).Yields
              before result after) ∨
          ∃ own, before.mod.find? before.pool (before.pool.get ref).id = some own ∧
            (before.pool.get own).isNew = true ∧
            after.pool = before.pool.modify ref
              (fun record => record.setField Record.removedField (.bool true)) ∧
            after.mod = { before.mod with
              records := before.mod.records.erase own
              deleted := before.mod.deleted ++ [(before.pool.get ref).id] }) := by
  unfold deleteRecord at hyields
  obtain ⟨bench, _, hget, hrest⟩ := yields_bind.mp hyields
  obtain ⟨rfl, rfl⟩ := yields_get.mp hget
  by_cases hdeleted : (before.pool.get ref).id ∈ before.mod.deleted
  · simp only [List.contains_eq_mem, hdeleted, decide_true, if_true] at hrest
    obtain ⟨-, rfl⟩ := yields_pure.mp hrest
    exact Or.inl ⟨hdeleted, rfl⟩
  · simp only [List.contains_eq_mem, hdeleted, decide_false, Bool.false_eq_true,
      if_false] at hrest
    refine Or.inr ⟨hdeleted, ?_⟩
    cases hfind : before.mod.find? before.pool (before.pool.get ref).id with
    | none =>
      rw [hfind] at hrest
      exact Or.inl ⟨nofun, hrest⟩
    | some own =>
      simp only [hfind] at hrest
      cases hnew : (before.pool.get own).isNew with
      | true =>
        simp only [hnew, if_true] at hrest
        obtain ⟨_, dropped, hdrop, hmark⟩ := yields_bind.mp hrest
        rw [yields_modify] at hdrop
        subst hdrop
        obtain ⟨_, marked, hchange, hnote⟩ := yields_bind.mp hmark
        rw [yields_change] at hchange
        subst hchange
        rw [yields_note] at hnote
        subst hnote
        exact Or.inr ⟨own, rfl, hnew, rfl, rfl⟩
      | false =>
        simp only [hnew, Bool.false_eq_true, if_false] at hrest
        refine Or.inl ⟨?_, hrest⟩
        rintro other ⟨⟩
        exact hnew

/-- Clones of a record as it is are appended. -/
theorem yields_cloneRecord {ref : RecordRef} {count : Int} {clones : List RecordRef}
    {before after : Workbench} (hyields : (cloneRecord ref count).Yields before clones after) :
    ∃ text, ∃ between : Workbench,
      (appendClones (before.pool.get ref) before.mod.name count.toNat
        (before.mod.nextIdNumber before.pool)).Yields before clones between ∧
      { between with journal := between.journal.push ⟨.debug, .records, text⟩ } = after := by
  unfold cloneRecord at hyields
  by_cases hnegative : count < 0
  · simp only [hnegative, if_true] at hyields
    obtain ⟨_, _, hthrown, -⟩ := yields_bind.mp hyields
    exact absurd hthrown not_yields_throw
  · simp only [hnegative, if_false] at hyields
    obtain ⟨bench, _, hget, hrest⟩ := yields_bind.mp hyields
    obtain ⟨rfl, rfl⟩ := yields_get.mp hget
    obtain ⟨given, between, hclones, hnote⟩ := yields_bind.mp hrest
    obtain ⟨_, noted, hnoted, hresult⟩ := yields_bind.mp hnote
    obtain ⟨rfl, rfl⟩ := yields_pure.mp hresult
    exact ⟨_, between, hclones, yields_note.mp hnoted⟩

end Work

namespace Eval

/-- An operation on the mod being patched. -/
theorem yields_onActive {Result : Type} {work : Work Result} {before after : World}
    {result : Result} :
    (onActive work).Yields before result after ↔
      ∃ mod bench, before.active = some mod ∧
        work.Yields ⟨before.pool, mod, before.journal, before.marks⟩ result bench ∧
        { before with
          pool := bench.pool
          active := some bench.mod
          journal := bench.journal
          marks := bench.marks } = after := by
  simp only [onActive, requireActive, yields_bind, yields_get]
  constructor
  · rintro ⟨mod, between, ⟨_, _, ⟨rfl, rfl⟩, hactive⟩, _, _, ⟨rfl, rfl⟩, hwork⟩
    cases hmod : before.active with
    | none => simp [hmod] at hactive
    | some active =>
      simp only [hmod, yields_pure] at hactive
      obtain ⟨rfl, rfl⟩ := hactive
      cases hrun : work.run ⟨before.pool, active, before.journal, before.marks⟩ with
      | mk outcome bench =>
        cases outcome with
        | error fault => simp [hrun] at hwork
        | ok given =>
          simp only [hrun, yields_bind, yields_set, yields_pure] at hwork
          obtain ⟨_, _, rfl, rfl, rfl⟩ := hwork
          exact ⟨active, bench, rfl, hrun, rfl⟩
  · rintro ⟨mod, bench, hmod, hwork, rfl⟩
    refine ⟨mod, before, ⟨before, before, ⟨rfl, rfl⟩, ?_⟩, before, before, ⟨rfl, rfl⟩, ?_⟩
    · simp [hmod]
    · rw [Work.Yields] at hwork
      simp only [hwork, yields_bind, yields_set, yields_pure]
      exact ⟨⟨⟩, _, rfl, trivial, rfl⟩

end Eval

end Patchwork
