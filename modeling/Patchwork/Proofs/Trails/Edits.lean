import Patchwork.Proofs.Trails.Moves

/-!
# What an edit does

An edit that is carried out writes one field or one link.  It is written to the record that
is edited and to the version of it that the mod being patched has or is given.  Two edits
write nothing: deleting what has been deleted, and adding a link that is there.  A record
that the mod has introduced is taken out of the mod when it is deleted.
-/

namespace Patchwork

/-! ## What is written -/

namespace Plain

/-- A value as it is written: one that is not a number is given a mark. -/
def WrittenAs (given value : Plain) : Prop :=
  given ≠ .float (.nan 0) ∧ value = given ∨
    ∃ mark, given = .float (.nan 0) ∧ value = .float (.nan (mark + 1))

/-- What a field with a value may hold later: a value of the same type, or a text where there
was no value. -/
def Admits (current value : Plain) : Prop :=
  FieldType.of? value = FieldType.of? current ∨
    current = .null ∧ FieldType.of? value = some .text

theorem eq_null_of_of? {value : Plain} (hnone : FieldType.of? value = none) : value = .null := by
  cases value <;> first | rfl | cases hnone

theorem Admits.refl (value : Plain) : value.Admits value :=
  Or.inl rfl

theorem Admits.trans {first second third : Plain} (hfirst : first.Admits second)
    (hsecond : second.Admits third) : first.Admits third := by
  rcases hsecond with hsame | ⟨rfl, htext⟩
  · rcases hfirst with hfirst | ⟨hnull, htext⟩
    · exact Or.inl (hsame.trans hfirst)
    · exact Or.inr ⟨hnull, hsame.trans htext⟩
  · rcases hfirst with hnone | ⟨-, hwrong⟩
    · exact Or.inr ⟨eq_null_of_of? hnone.symm, htext⟩
    · cases hwrong

theorem of?_writtenAs {given value : Plain} (hwritten : given.WrittenAs value) :
    FieldType.of? value = FieldType.of? given := by
  rcases hwritten with ⟨-, rfl⟩ | ⟨mark, rfl, rfl⟩ <;> rfl

end Plain

theorem FieldType.of?_convert {type : FieldType} {text : String} {value : Plain}
    (hconvert : type.convert text = .ok value) : FieldType.of? value = some type := by
  unfold FieldType.convert at hconvert
  cases type with
  | int =>
    cases hnumber : integerOfText text with
    | error fault =>
      simp only [hnumber] at hconvert
      cases hconvert
    | ok number =>
      simp only [hnumber] at hconvert
      cases hconvert
      rfl
  | bool | float =>
    dsimp only at hconvert
    split at hconvert <;> cases hconvert
    rfl
  | text =>
    cases hconvert
    rfl
  | list | mapping => cases hconvert

/-- A text that is written into a field gives it a value that it admits. -/
theorem Plain.admits_convert {current given value : Plain} {text : String}
    (hconvert : ((FieldType.of? current).getD .text).convert text = .ok given)
    (hwritten : given.WrittenAs value) : current.Admits value := by
  have htype := (of?_writtenAs hwritten).trans (FieldType.of?_convert hconvert)
  cases current with
  | null => exact Or.inr ⟨rfl, htype⟩
  | _ => exact Or.inl htype

/-- What is written when an edit of a record is carried out. -/
inductive Edit.Writes (record : Record) : Edit → Record.Edit → Prop
  | setField {name text : String} {current given value : Plain}
      (hcurrent : record.field? name = some current)
      (hconvert : ((FieldType.of? current).getD .text).convert text = .ok given)
      (hvalue : given.WrittenAs value) : Writes record (.setField name text) (.field name value)
  | forceSetField {name text declared : String} {type : FieldType} {given value : Plain}
      (htype : FieldType.declared? declared = some type) (hconvert : type.convert text = .ok given)
      (hvalue : given.WrittenAs value) :
      Writes record (.forceSetField name text declared) (.field name value)
  | delete : Writes record .delete (.field Record.removedField (.bool true))
  | relink (link : Link) : Writes record (.relink link) (.link link)
  | addLink {source : RecordRef} {category : String} {payload : Option (List Int)}
      {forced : Bool} (link : Link) :
      Writes record (.addLink source category payload forced) (.link link)

/-! ## Where it is written -/

/-- The version of a record that a write reaches: the one the mod has, or an override that is
made. -/
inductive Mod.Reaches (mod : Mod) (pool : Pool) (target : RecordRef) :
    RecordRef → Pool → Mod → Prop
  | found {own : RecordRef} (hfind : mod.find? pool (pool.get target).id = some own) :
      Reaches mod pool target own pool mod
  | made (hnone : mod.find? pool (pool.get target).id = none) :
      Reaches mod pool target pool.nextRef
        (pool.add {
          id := (pool.get target).id
          kind := (pool.get target).kind
          name := (pool.get target).name
          mod := mod.name })
        (mod.addRecord pool.nextRef)

/-- What is written to two records, each of them once. -/
def Pool.writeBoth (pool : Pool) (own target : RecordRef) (made : Record.Edit) : Pool :=
  if own = target then pool.modify own made.apply
  else (pool.modify own made.apply).modify target made.apply

namespace Pool

variable {pool : Pool} {own target ref : RecordRef}

/-- A write reaches both records and no other one. -/
theorem get_writeBoth (href : pool.Holds ref) (own target : RecordRef) (made : Record.Edit) :
    (pool.writeBoth own target made).get ref =
      if ref = own ∨ ref = target then made.apply (pool.get ref) else pool.get ref := by
  have hmodified : ∀ {pool : Pool} (place : RecordRef), pool.Holds ref →
      (pool.modify place made.apply).get ref =
        if ref = place then made.apply (pool.get ref) else pool.get ref := by
    intro pool place hheld
    split
    · rename_i hsame
      rw [← hsame, Pool.get_modify_self _ hheld]
    · rename_i hother
      exact pool.get_modify_of_ne _ (Ne.symm hother)
  unfold writeBoth
  split
  · rename_i hsame
    simp only [hmodified own href, ← hsame, or_self]
  · rename_i hother
    rw [hmodified target (Pool.holds_modify.mpr href), hmodified own href]
    by_cases hown : ref = own
    · rw [if_neg fun htarget => hother (hown.symm.trans htarget), if_pos hown, if_pos (Or.inl hown)]
    · simp only [hown, if_false, false_or]

end Pool

theorem Mod.Reaches.keptIn {mod patched : Mod} {pool reached : Pool} {target own : RecordRef}
    (hreaches : mod.Reaches pool target own reached patched) : pool.KeptIn reached := by
  cases hreaches with
  | found _ => exact Pool.KeptIn.refl pool
  | made _ => exact pool.keptIn_add _

/-- What an edit of a record leads to, if it does not fail. -/
inductive Edit.Leads (target : RecordRef) (edit : Edit) (pool : Pool) (mod : Mod) :
    Pool → Mod → Prop
  /-- The record has been deleted. -/
  | deleted (hedit : edit = .delete) (hdeleted : (pool.get target).id ∈ mod.deleted) :
      Leads target edit pool mod pool mod
  /-- The link is there. -/
  | skipped {source : RecordRef} {category : String} {payload : Option (List Int)}
      (hedit : edit = .addLink source category payload false) :
      Leads target edit pool mod pool mod
  /-- Something is written. -/
  | wrote {made : Record.Edit} {own : RecordRef} {reached : Pool} {patched : Mod}
      (hwrites : edit.Writes (pool.get target) made)
      (hundeleted : (pool.get target).id ∉ mod.deleted)
      (hreaches : mod.Reaches pool target own reached patched) :
      Leads target edit pool mod (reached.writeBoth own target made) patched
  /-- The mod loses a record that it has introduced. -/
  | dropped {own : RecordRef} (hedit : edit = .delete)
      (hundeleted : (pool.get target).id ∉ mod.deleted)
      (hfind : mod.find? pool (pool.get target).id = some own)
      (hnew : (pool.get own).isNew = true) :
      Leads target edit pool mod
        (pool.modify target (Record.Edit.field Record.removedField (.bool true)).apply)
        { mod with
          records := mod.records.erase own
          deleted := mod.deleted ++ [(pool.get target).id] }

namespace Work

variable {target : RecordRef} {before after : Workbench}

theorem writtenAs_of_mark {given value : Plain} (hyields : (mark given).Yields before value after) :
    given.WrittenAs value := by
  unfold mark at hyields
  split at hyields
  · obtain ⟨bench, between, -, hrest⟩ := yields_bind.mp hyields
    obtain ⟨_, last, -, hlast⟩ := yields_bind.mp hrest
    exact Or.inr ⟨_, rfl, (yields_pure.mp hlast).1.symm⟩
  · rename_i hmarked
    exact Or.inl ⟨hmarked, (yields_pure.mp hyields).1.symm⟩

theorem leads_of_write {edit : Edit} {made : Record.Edit}
    (hwrites : edit.Writes (before.pool.get target) made)
    (hyields : (write target made.apply).Yields before () after) :
    edit.Leads target before.pool before.mod after.pool after.mod := by
  obtain ⟨own, between, hown, hmod, hpool⟩ := yields_write hyields
  obtain ⟨hundeleted, ⟨hfind, rfl⟩ | ⟨hnone, rfl, hadded, hpatched⟩⟩ := yields_ownVersion hown
  · rw [hmod, hpool]
    exact .wrote hwrites hundeleted (.found hfind)
  · rw [hmod, hpool, hpatched, hadded]
    exact .wrote hwrites hundeleted (.made hnone)

/-- What a step that keeps the records is followed by leads on from the same records. -/
theorem SameRecords.leads {edit : Edit} {between : Workbench}
    (hsame : SameRecords before between)
    (hleads : edit.Leads target between.pool between.mod after.pool after.mod) :
    edit.Leads target before.pool before.mod after.pool after.mod := by
  rwa [hsame.pool, hsame.mod] at hleads

theorem leads_of_field {edit : Edit} {name : String} {outcome : Except Fault Plain}
    (hyields : (do
      let converted ← (liftM outcome : Work Plain)
      let value ← mark converted
      write target fun record => record.setField name value : Work Unit).Yields before () after)
    (hwrites : ∀ given value, outcome = .ok given → given.WrittenAs value →
      edit.Writes (before.pool.get target) (.field name value)) :
    edit.Leads target before.pool before.mod after.pool after.mod := by
  obtain ⟨given, _, hgiven, hrest⟩ := yields_bind.mp hyields
  obtain ⟨hconvert, rfl⟩ := yields_lift hgiven
  obtain ⟨value, between, hmark, hwrite⟩ := yields_bind.mp hrest
  have hsame := sameRecords_of_mark hmark
  have hmade : edit.Writes (between.pool.get target) (.field name value) := by
    rw [hsame.pool]
    exact hwrites given value hconvert (writtenAs_of_mark hmark)
  exact hsame.leads (leads_of_write hmade hwrite)

end Work

/-- What an edit that is carried out leads to. -/
theorem Edit.leads_of_yields {target : RecordRef} {edit : Edit} {before after : Workbench}
    (hyields : (edit.work target).Yields before () after) :
    edit.Leads target before.pool before.mod after.pool after.mod := by
  cases edit with
  | setField name text =>
    obtain ⟨record, _, hrecord, hrest⟩ := Work.yields_bind.mp hyields
    obtain ⟨rfl, rfl⟩ := Work.yields_record.mp hrecord
    cases hcurrent : (before.pool.get target).field? name with
    | none =>
      simp only [hcurrent] at hrest
      exact absurd hrest Work.not_yields_throw
    | some current =>
      simp only [hcurrent] at hrest
      exact Work.leads_of_field hrest fun _ _ hconvert hvalue =>
        .setField hcurrent hconvert hvalue
  | forceSetField name text declared =>
    unfold Edit.work Work.forceSetField at hyields
    cases htype : FieldType.declared? declared with
    | none =>
      simp only [htype] at hyields
      exact absurd hyields Work.not_yields_throw
    | some type =>
      simp only [htype] at hyields
      exact Work.leads_of_field hyields fun _ _ hconvert hvalue =>
        .forceSetField htype hconvert hvalue
  | delete =>
    obtain ⟨hdeleted, rfl⟩ | ⟨hundeleted, ⟨-, hwrite⟩ | ⟨own, hfind, hnew, hpool, hmod⟩⟩ :=
      Work.yields_deleteRecord hyields
    · exact .deleted rfl hdeleted
    · exact Work.leads_of_write .delete hwrite
    · rw [hpool, hmod]
      exact .dropped rfl hundeleted hfind hnew
  | relink link => exact Work.leads_of_write (.relink link) hyields
  | addLink source category payload forced =>
    obtain ⟨record, _, hrecord, hlinks⟩ := Work.yields_bind.mp hyields
    obtain ⟨rfl, rfl⟩ := Work.yields_record.mp hrecord
    obtain ⟨linked, _, hlinked, hrest⟩ := Work.yields_bind.mp hlinks
    obtain ⟨rfl, rfl⟩ := Work.yields_record.mp hlinked
    split at hrest
    · rename_i hskips
      have hforced : forced = false := by
        cases forced with
        | true => cases hskips
        | false => rfl
      have hsame := Work.keepsRecords_note _ _ _ _ hrest
      rw [hsame.pool, hsame.mod, hforced]
      exact .skipped rfl
    · exact Work.leads_of_write (.addLink _) hrest

end Patchwork
