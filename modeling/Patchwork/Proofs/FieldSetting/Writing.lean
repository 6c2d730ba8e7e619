import Patchwork.Proofs.FieldSetting.Shifting
import Patchwork.Proofs.Mod.Piping

/-!
# Writing fields

A text that is written into a field is converted to the type of the value there, and a value that
is not a number is given a mark.  Nothing but fields of the record and of the version that the mod
being patched has of it is written, so at every later point all records are still called, identified
and linked as they were.
-/

namespace Patchwork

/-! ## Marks -/

/-- A value as it is written when some marks have been given, and the last mark that has been given
then. -/
def Plain.marked (marks : Nat) : Plain → Plain × Nat
  | .float (.nan 0) => (.float (.nan (marks + 1)), marks + 1)
  | value => (value, marks)

namespace Plain

theorem marked_of_ne {value : Plain} (hvalue : value ≠ .float (.nan 0)) (marks : Nat) :
    value.marked marks = (value, marks) := by
  unfold marked
  split
  · exact absurd rfl hvalue
  · rfl

theorem writtenAs_marked (given : Plain) (marks : Nat) :
    given.WrittenAs (given.marked marks).1 := by
  by_cases hgiven : given = .float (.nan 0)
  · subst hgiven
    exact Or.inr ⟨marks, rfl, rfl⟩
  · rw [marked_of_ne hgiven]
    exact Or.inl ⟨hgiven, rfl⟩

theorem le_marked (given : Plain) (marks : Nat) : marks ≤ (given.marked marks).2 := by
  by_cases hgiven : given = .float (.nan 0)
  · subst hgiven
    exact Nat.le_succ marks
  · exact Nat.le_of_eq (by rw [marked_of_ne hgiven])

/-- Ways to write one value differ in marks only. -/
theorem WrittenAs.remark_eq {given first second : Plain} (hfirst : given.WrittenAs first)
    (hsecond : given.WrittenAs second) :
    first.remark (fun _ => 0) = second.remark fun _ => 0 := by
  rcases hfirst with ⟨hgiven, rfl⟩ | ⟨mark, rfl, rfl⟩
  · rcases hsecond with ⟨-, rfl⟩ | ⟨mark, hnan, -⟩
    · rfl
    · exact absurd hnan hgiven
  · rcases hsecond with ⟨hgiven, -⟩ | ⟨other, -, rfl⟩
    · exact absurd rfl hgiven
    · rfl

end Plain

theorem Work.yields_mark {given value : Plain} {before after : Workbench} :
    (Work.mark given).Yields before value after ↔
      (given.marked before.marks).1 = value ∧
        { before with marks := (given.marked before.marks).2 } = after := by
  by_cases hgiven : given = .float (.nan 0)
  · subst hgiven
    simp only [mark, yields_bind, yields_get, yields_set, yields_pure, Plain.marked]
    constructor
    · rintro ⟨_, _, ⟨rfl, rfl⟩, _, _, rfl, hvalue, rfl⟩
      exact ⟨hvalue, rfl⟩
    · rintro ⟨hvalue, rfl⟩
      exact ⟨before, before, ⟨rfl, rfl⟩, ⟨⟩, _, rfl, hvalue, rfl⟩
  · rw [mark_of_ne hgiven, Plain.marked_of_ne hgiven, yields_pure]

/-! ## Fields of a record -/

theorem Entries.put_put {Key Value : Type} [BEq Key] (entries : Entries Key Value) {key : Key}
    (hself : (key == key) = true) (first second : Value) :
    (entries.put key first).put key second = entries.put key second := by
  induction entries with
  | nil => simp [put, hself]
  | cons head rest ih =>
    obtain ⟨here, old⟩ := head
    by_cases hhere : (here == key) = true <;> simp [put, hhere, ih]

namespace Record

/-- Of what is written last to a field nothing is seen that was written before. -/
theorem setField_setField (record : Record) (name : String) (first second : Plain) :
    (record.setField name first).setField name second = record.setField name second := by
  have hself : (Plain.str name == Plain.str name) = true := Plain.str_beq_iff.mpr rfl
  rw [setField, setField, setField, Entries.put_put _ hself]

/-- Whether an edit writes a field. -/
def Edit.OfField (edit : Edit) : Prop :=
  ∃ name value, edit = .field name value

/-- Writing fields changes nothing but the fields. -/
theorem edited_fields (record : Record) {edits : List Edit}
    (hedits : ∀ edit ∈ edits, edit.OfField) :
    record.edited edits = { record with fields := (record.edited edits).fields } := by
  induction edits generalizing record with
  | nil => rfl
  | cons edit rest ih =>
    obtain ⟨⟨name, value, rfl⟩, hrest⟩ := List.forall_mem_cons.mp hedits
    exact ih (record.setField name value) hrest

end Record

/-! ## Later points -/

namespace Amended

variable {targets : List RecordRef} {edits : RecordRef → List Record.Edit} {pool later : Pool}
  {mod patched : Mod} {target own ref : RecordRef}

/-- The version that the mod had of a target has the edits of the target. -/
theorem get_own (hamended : Amended targets edits pool mod later patched)
    (htarget : target ∈ targets) (hfind : mod.find? pool (pool.get target).id = some own) :
    later.get own = (pool.get own).edited (edits target) := by
  have hversion := hamended.version target htarget
  rw [Mod.version?, Mod.version?, hamended.found _ _ hfind, hfind, Option.map_some,
    Option.map_some] at hversion
  have hedited : Mod.editedVersion (some (pool.get own)) (pool.get target) mod.name
      (edits target) = some ((pool.get own).edited (edits target)) := by
    cases edits target <;> rfl
  exact Option.some.inj (hversion.trans hedited)

/-- Every record that was there has edits of some target, or none. -/
theorem exists_edited (hamended : Amended targets edits pool mod later patched)
    (hheld : pool.Holds ref) :
    ∃ written, (∀ edit ∈ written, ∃ target ∈ targets, edit ∈ edits target) ∧
      later.get ref = (pool.get ref).edited written := by
  by_cases htarget : ref ∈ targets
  · exact ⟨edits ref, fun edit hedit => ⟨ref, htarget, hedit⟩, hamended.target ref htarget⟩
  · by_cases hown : ∃ target ∈ targets, mod.find? pool (pool.get target).id = some ref
    · obtain ⟨target, hmem, hfind⟩ := hown
      exact ⟨edits target, fun edit hedit => ⟨target, hmem, hedit⟩, hamended.get_own hmem hfind⟩
    · refine ⟨[], List.forall_mem_nil _, hamended.rest ref hheld htarget ?_⟩
      exact fun target hmem hfind => hown ⟨target, hmem, hfind⟩

theorem size_le (hamended : Amended targets edits pool mod later patched) :
    pool.records.size ≤ later.records.size := by
  by_contra hless
  have hlast := hamended.holds ⟨pool.records.size - 1⟩ (by simp only [Pool.Holds]; omega)
  simp only [Pool.Holds] at hlast
  omega

end Amended

namespace World

variable {refs : List RecordRef} {edits more : RecordRef → List Record.Edit}
  {before during later : World} {target : RecordRef}

/-- A later point up to which fields have been written to targets. -/
structure FieldsWritten (refs : List RecordRef) (edits : RecordRef → List Record.Edit)
    (before during : World) : Prop where
  amended : Amended refs edits before during
  ofField : ∀ target ∈ refs, ∀ edit ∈ edits target, edit.OfField
  marks : before.marks ≤ during.marks

/-- Nothing has been written. -/
theorem HasTargets.written_refl (htargets : before.HasTargets refs) :
    FieldsWritten refs (fun _ => []) before before :=
  ⟨htargets.amended_of_same rfl rfl, fun _ _ => List.forall_mem_nil _, Nat.le_refl _⟩

theorem FieldsWritten.trans (hfirst : FieldsWritten refs edits before during)
    (hsecond : FieldsWritten refs more during later) :
    FieldsWritten refs (fun target => edits target ++ more target) before later where
  amended := hfirst.amended.trans hsecond.amended
  ofField target htarget := List.forall_mem_append.mpr
    ⟨hfirst.ofField target htarget, hsecond.ofField target htarget⟩
  marks := Nat.le_trans hfirst.marks hsecond.marks

theorem FieldsWritten.marked (hwritten : FieldsWritten refs edits before during)
    (hmarked : during.Marked later) : FieldsWritten refs edits before later := by
  rw [hmarked.2]
  exact ⟨hwritten.amended, hwritten.ofField, Nat.le_trans hwritten.marks hmarked.1⟩

theorem FieldsWritten.of_marked (hmarked : before.Marked during)
    (hwritten : FieldsWritten refs edits during later) : FieldsWritten refs edits before later := by
  have hmarks := Nat.le_trans hmarked.1 hwritten.marks
  rw [hmarked.2] at hwritten
  exact ⟨hwritten.amended, hwritten.ofField, hmarks⟩

/-- What has been deleted before has been deleted, and nothing else. -/
theorem FieldsWritten.deleted (hwritten : FieldsWritten refs edits before during) {mod patched : Mod}
    (hmod : before.active = some mod) (hpatched : during.active = some patched) :
    patched.deleted = mod.deleted := by
  obtain ⟨other, final, hother, hfinal, hamended⟩ := hwritten.amended
  obtain rfl := Option.some.inj (hmod.symm.trans hother)
  obtain rfl := Option.some.inj (hpatched.symm.trans hfinal)
  exact hamended.deleted

/-- At a later point a record that has not been written to is as it was, and every record is called,
identified and linked as it was. -/
theorem FieldsWritten.follows (hwritten : FieldsWritten refs edits before during)
    {current : Option RecordRef} (hheld : ∀ ref ∈ current, before.pool.Holds ref)
    (hfields : ∀ ref ∈ current, (during.pool.get ref).fields = (before.pool.get ref).fields) :
    before.Follows current during := by
  obtain ⟨mod, patched, -, -, hamended⟩ := hwritten.amended
  have hsame : ∀ ref, before.pool.Holds ref → ∃ fields,
      during.pool.get ref = { before.pool.get ref with fields := fields } := by
    intro ref href
    obtain ⟨written, hmem, hget⟩ := hamended.exists_edited href
    have hedits : ∀ edit ∈ written, edit.OfField := by
      intro edit hedit
      obtain ⟨target, htarget, hedit⟩ := hmem edit hedit
      exact hwritten.ofField target htarget edit hedit
    exact ⟨_, hget.trans (Record.edited_fields _ hedits)⟩
  exact {
    places := hamended.size_le
    marks := hwritten.marks
    held := hheld
    label := fun ref href => by
      obtain ⟨fields, hget⟩ := hsame ref href
      rw [Pool.label, hget]
      rfl
    id := fun ref href => by
      obtain ⟨fields, hget⟩ := hsame ref href
      rw [hget]
    links := fun ref href => by
      obtain ⟨fields, hget⟩ := hsame ref href
      rw [hget]
    fields := hfields }

end World

/-! ## Writing a text -/

theorem Work.marks_of_write {target : RecordRef} {edit : Record → Record} {before after : Workbench}
    {result : PUnit} (hyields : (write target edit).Yields before result after) :
    after.marks = before.marks := by
  obtain ⟨own, between, hown, -⟩ := yields_write hyields
  obtain ⟨other, last, hagain, hmarks⟩ := exists_yields_write edit (yields_ownVersion hown).1
  rw [Yields] at hyields hagain
  rw [hyields] at hagain
  cases hagain
  exact hmarks

namespace World

variable {refs : List RecordRef} {before after : World} {target : RecordRef} {name text : String}

/-- What writing a text into a field leads to. -/
theorem HasTargets.written_setField (htargets : before.HasTargets refs) (htarget : target ∈ refs)
    {result : PUnit}
    (hyields : (Eval.onActive (Work.setField target name text)).Yields before result after) :
    ∃ mod current given, before.active = some mod ∧ (before.pool.get target).id ∉ mod.deleted ∧
      (before.pool.get target).field? name = some current ∧
      ((FieldType.of? current).getD .text).convert text = .ok given ∧
      after.marks = (given.marked before.marks).2 ∧
      FieldsWritten refs (onlyOn target [.field name (given.marked before.marks).1]) before
        after := by
  obtain ⟨mod, hmod, htargets⟩ := htargets
  obtain ⟨other, bench, hother, hwork, rfl⟩ := Eval.yields_onActive.mp hyields
  obtain rfl := Option.some.inj (hmod.symm.trans hother)
  obtain ⟨record, _, hrecord, hrest⟩ := Work.yields_bind.mp hwork
  obtain ⟨rfl, rfl⟩ := Work.yields_record.mp hrecord
  cases hcurrent : (before.pool.get target).field? name with
  | none =>
    simp only [hcurrent] at hrest
    exact absurd hrest Work.not_yields_throw
  | some current =>
    simp only [hcurrent] at hrest
    obtain ⟨given, _, hgiven, hrest⟩ := Work.yields_bind.mp hrest
    obtain ⟨hconvert, rfl⟩ := Work.yields_lift hgiven
    obtain ⟨value, between, hmark, hwrite⟩ := Work.yields_bind.mp hrest
    obtain ⟨rfl, rfl⟩ := Work.yields_mark.mp hmark
    let edit : Record.Edit := .field name (given.marked before.marks).1
    have hedit : (Work.write target edit.apply).Yields
        ⟨before.pool, mod, before.journal, (given.marked before.marks).2⟩ result bench := hwrite
    obtain ⟨hundeleted, hamended⟩ := Work.amended_write htargets htarget hedit
    have hmarks : bench.marks = (given.marked before.marks).2 := Work.marks_of_write hedit
    refine ⟨mod, current, given, hmod, hundeleted, rfl, hconvert, hmarks,
      ⟨mod, bench.mod, hmod, rfl, hamended⟩, fun ref _ written hwritten => ?_, ?_⟩
    · by_cases hsame : ref = target
      · rw [hsame, onlyOn_self] at hwritten
        exact ⟨name, _, List.mem_singleton.mp hwritten⟩
      · rw [onlyOn_of_ne hsame] at hwritten
        exact absurd hwritten List.not_mem_nil
    · exact hmarks ▸ given.le_marked before.marks

/-- A text that can be converted is written into a field of a record that has not been deleted. -/
theorem exists_yields_setField {mod : Mod} (hmod : before.active = some mod)
    (hundeleted : (before.pool.get target).id ∉ mod.deleted) {current given : Plain}
    (hcurrent : (before.pool.get target).field? name = some current)
    (hconvert : ((FieldType.of? current).getD .text).convert text = .ok given) :
    ∃ result after, (Eval.onActive (Work.setField target name text)).Yields before result after := by
  let bench : Workbench := ⟨before.pool, mod, before.journal, (given.marked before.marks).2⟩
  have hstart : (bench.pool.get target).id ∉ bench.mod.deleted := hundeleted
  obtain ⟨result, last, hwrite, -⟩ := Work.exists_yields_write
    (fun record => record.setField name (given.marked before.marks).1) hstart
  refine ⟨result, _, Eval.yields_onActive.mpr ⟨mod, last, hmod, ?_, rfl⟩⟩
  refine Work.yields_bind.mpr ⟨_, _, Work.yields_record.mpr ⟨rfl, rfl⟩, ?_⟩
  simp only [hcurrent, hconvert]
  refine Work.yields_bind.mpr ⟨given, _, rfl, ?_⟩
  exact Work.yields_bind.mpr ⟨_, _, Work.yields_mark.mpr ⟨rfl, rfl⟩, hwrite⟩

end World

end Patchwork
