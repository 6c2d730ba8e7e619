import Patchwork.Proofs.Provenance.Runs
import Patchwork.Proofs.Trails.Apart
import Patchwork.Proofs.Trails.Lines

/-!
# Records keep their schema

The schema of a record is what it is and where it comes from, the names of its fields and
the types of their values.  Fields are written as texts that are converted to the type of the
value that is there, so a script that never gives a field a declared type changes no
schema: a record can only be marked as deleted, and a field without a value can get a text.
-/

namespace Patchwork

/-! ## Schemas -/

namespace Record

/-- What may become of a field: its value admits the later one, unless the field is the mark of
a deleted record. -/
def FieldKept (before after : Plain × Plain) : Prop :=
  after.1 = before.1 ∧ (before.1 = .str removedField ∨ before.2.Admits after.2)

/-- A record has kept its schema: nothing but the values of its fields and its links has
changed, except that it may have been marked as deleted. -/
structure SchemaKept (before after : Record) : Prop where
  id : after.id = before.id
  kind : after.kind = before.kind
  name : after.name = before.name
  mod : after.mod = before.mod
  isNew : after.isNew = before.isNew
  names : after.fields.map Prod.fst = before.fields.map Prod.fst ∨
    before.hasField removedField = false ∧
      after.fields.map Prod.fst = before.fields.map Prod.fst ++ [.str removedField]
  types : ∀ (position : Nat) field, before.fields[position]? = some field →
    ∃ later, after.fields[position]? = some later ∧ FieldKept field later

theorem FieldKept.refl (field : Plain × Plain) : FieldKept field field :=
  ⟨rfl, Or.inr (Plain.Admits.refl _)⟩

theorem FieldKept.trans {first second third : Plain × Plain} (hfirst : FieldKept first second)
    (hsecond : FieldKept second third) : FieldKept first third := by
  refine ⟨hsecond.1.trans hfirst.1, ?_⟩
  rcases hfirst.2 with hremoved | hadmits
  · exact Or.inl hremoved
  · rw [← hfirst.1]
    exact hsecond.2.imp_right hadmits.trans

theorem hasField_eq_any (record : Record) (name : String) :
    record.hasField name = (record.fields.map Prod.fst).any (· == .str name) :=
  Entries.has_eq_any_keys record.fields (.str name)

namespace SchemaKept

theorem refl (record : Record) : record.SchemaKept record where
  id := rfl
  kind := rfl
  name := rfl
  mod := rfl
  isNew := rfl
  names := Or.inl rfl
  types _ field hfield := ⟨field, hfield, FieldKept.refl field⟩

theorem trans {first second third : Record} (hfirst : first.SchemaKept second)
    (hsecond : second.SchemaKept third) : first.SchemaKept third where
  id := hsecond.id.trans hfirst.id
  kind := hsecond.kind.trans hfirst.kind
  name := hsecond.name.trans hfirst.name
  mod := hsecond.mod.trans hfirst.mod
  isNew := hsecond.isNew.trans hfirst.isNew
  names := by
    have hbetween := second.hasField_eq_any removedField
    rcases hfirst.names with hsame | ⟨habsent, hmarked⟩
    · rw [hsame, ← hasField_eq_any] at hbetween
      rw [← hbetween, ← hsame]
      exact hsecond.names
    · have hmark : (Plain.str removedField == .str removedField) = true :=
        Plain.beq_str_iff.mpr rfl
      rw [hmarked, List.any_append, List.any_cons, hmark, Bool.true_or, Bool.or_true] at hbetween
      refine Or.inr ⟨habsent, hmarked ▸ hsecond.names.resolve_right fun hagain => ?_⟩
      rw [hbetween] at hagain
      cases hagain.1
  types position field hfield := by
    obtain ⟨between, hbetween, hkept⟩ := hfirst.types position field hfield
    obtain ⟨later, hlater, hrest⟩ := hsecond.types position between hbetween
    exact ⟨later, hlater, hkept.trans hrest⟩

/-- A field is written that the record has, or the mark of a deleted record. -/
theorem setField {record : Record} {name : String} {value : Plain}
    (hname : record.hasField name = true ∨ name = removedField)
    (hadmits : ∀ current, record.field? name = some current → name = removedField ∨
      current.Admits value) :
    record.SchemaKept (record.setField name value) where
  id := rfl
  kind := rfl
  name := rfl
  mod := rfl
  isNew := rfl
  names := by
    have hkeys := Entries.keys_put record.fields (.str name) value
    change (record.setField name value).fields.map Prod.fst = if record.hasField name then _ else _
      at hkeys
    rw [hkeys]
    split
    · exact Or.inl rfl
    · rename_i habsent
      obtain rfl := hname.resolve_left habsent
      exact Or.inr ⟨Bool.not_eq_true _ ▸ habsent, rfl⟩
  types position field hfield := by
    rcases Entries.getElem?_put hfield (.str name) value with hkept | ⟨hwritten, hkey, hcurrent⟩
    · exact ⟨field, hkept, FieldKept.refl field⟩
    · refine ⟨(field.1, value), hwritten, rfl, ?_⟩
      rw [Plain.beq_str_iff.mp hkey]
      exact (hadmits field.2 hcurrent).imp_left (congrArg Plain.str)

theorem setLink (record : Record) (link : Link) : record.SchemaKept (record.setLink link) :=
  ⟨rfl, rfl, rfl, rfl, rfl, Or.inl rfl, fun _ field hfield => ⟨field, hfield, FieldKept.refl field⟩⟩

end SchemaKept

end Record

/-! ## Edits -/

/-- The rules that keep schemas: records of groups lie beyond a place, and no procedure gives a
field a declared type. -/
def Rules.unforced (first : Nat) : Rules :=
  ⟨first, (· ≠ .forceSetField)⟩

theorem Edit.Writes.schemaKept {first : Nat} {edit : Edit} {record : Record} {made : Record.Edit}
    (hwrites : edit.Writes record made) (hobeys : edit.Obeys (.unforced first)) :
    record.SchemaKept (made.apply record) := by
  cases hwrites with
  | setField hcurrent hconvert hvalue =>
    refine .setField (Or.inl (by rw [Record.hasField, hcurrent]; rfl)) fun current hfound => ?_
    obtain rfl := Option.some.inj (hcurrent.symm.trans hfound)
    exact Or.inr (Plain.admits_convert hconvert hvalue)
  | forceSetField => exact absurd rfl hobeys
  | delete => exact .setField (Or.inr rfl) fun _ _ => Or.inl rfl
  | relink link | addLink link => exact .setLink record link

variable {repository : Repository} {taken : String → Prop} {first : Nat}

/-- An edit keeps the schema of each record that the run has made as a new one. -/
theorem Edit.Leads.schemaKept {target : RecordRef} {edit : Edit} {pool later : Pool}
    {mod patched : Mod} (hleads : edit.Leads target pool mod later patched)
    (hobeys : edit.Obeys (.unforced first)) (hempty : taken "")
    (hapart : mod.Apart taken first pool) (htarget : first ≤ target.index) {ref : RecordRef}
    (href : pool.Holds ref) (hfirst : first ≤ ref.index) (hnew : (pool.get ref).isNew = true) :
    (pool.get ref).SchemaKept (later.get ref) := by
  cases hleads with
  | deleted | skipped => exact .refl _
  | @wrote made own reached _ hwrites _ hreaches =>
    obtain ⟨hheld, hsame⟩ := hreaches.keptIn ref href
    have hown : ref = own → ref = target := by
      rintro rfl
      cases hreaches with
      | found hfind => exact hapart.eq_of_find? hempty hfind htarget hfirst hnew
      | made _ => exact absurd href pool.not_holds_nextRef
    rw [Pool.get_writeBoth hheld, hsame]
    split
    · rename_i hreached
      obtain rfl := hreached.elim hown id
      exact hwrites.schemaKept hobeys
    · exact .refl _
  | dropped =>
    by_cases hsame : target = ref
    · rw [hsame, Pool.get_modify_self _ href]
      exact .setField (Or.inr rfl) fun _ _ => Or.inl rfl
    · rw [Pool.get_modify_of_ne _ hsame]
      exact .refl _

/-! ## Moves -/

variable {before after : World}

theorem Move.schemaKept {move : Move} (hmove : move.Leads repository before after)
    (hobeys : move.Obeys (.unforced first)) (hapart : before.Apart repository taken first)
    {ref : RecordRef} (href : before.pool.Holds ref) (hfirst : first ≤ ref.index)
    (hnew : (before.pool.get ref).isNew = true) :
    (before.pool.get ref).SchemaKept (after.pool.get ref) := by
  have hunchanged : ∀ {later : Pool}, before.pool.KeptIn later → after.pool = later →
      (before.pool.get ref).SchemaKept (after.pool.get ref) := by
    rintro later hkept rfl
    rw [(hkept ref href).2]
    exact .refl _
  cases move with
  | rested => exact hunchanged (Pool.KeptIn.refl _) hmove.1
  | placed mods kind => exact hunchanged (Merge.keptIn_place _ before.pool) hmove.2.2
  | edited target edit =>
    obtain ⟨mod, bench, hmod, hbench, rfl⟩ := Eval.yields_onActive.mp hmove
    exact (Edit.leads_of_yields hbench).schemaKept hobeys.2 hapart.empty (hapart.active mod hmod)
      hobeys.1 href hfirst hnew
  | cloned source count =>
    obtain ⟨clones, hyields⟩ := hmove
    obtain ⟨mod, -, -, early, late, hearly, -, hlate, hclones⟩ := World.clones_of_yields hyields
    exact hunchanged (hearly ▸ hclones.kept) hlate.symm
  | depended entries | referred entries =>
    obtain ⟨mod, bench, -, hbench, rfl⟩ := Eval.yields_onActive.mp hmove
    obtain rfl := Work.yields_modify.mp hbench
    exact .refl _

/-- Along moves that give no field a declared type, each record that the run has made as a new
one keeps its schema. -/
theorem Trail.schemaKept {moves : List Move} (htrail : Trail repository before moves after)
    (hobeys : ∀ move ∈ moves, move.Obeys (.unforced first))
    (hapart : before.Apart repository taken first) {ref : RecordRef}
    (href : before.pool.Holds ref) (hfirst : first ≤ ref.index)
    (hnew : (before.pool.get ref).isNew = true) :
    (before.pool.get ref).SchemaKept (after.pool.get ref) := by
  induction htrail with
  | done world => exact .refl _
  | step hmove _ ih =>
    obtain ⟨hfirstMove, hrest⟩ := List.forall_mem_cons.mp hobeys
    have hretains := (Move.onward hmove).retains
    have hkept := Move.schemaKept hmove hfirstMove hapart href hfirst hnew
    refine hkept.trans (ih hrest (hapart.move hmove) (hretains.holds ref href) ?_)
    rw [hretains.isNew ref href]
    exact hnew

/-! ## Runs -/

/-- A run in which no procedure gives a field a declared type changes no schema.  Suppose
that the records of the loaded mods and of the mod being patched are in the pool, and that the
mod knows every identifier of a loaded mod that is numbered like its own.  If no statement
calls the procedure that forces a type, then each record that is in a group of the definitions
or of the tables after some lines keeps its schema until the end of the run. -/
theorem afterLines_schemaKept {patcher : Patcher} {mod : Mod}
    (hloaded : patcher.repository.Loaded patcher.world.pool)
    (hheld : ∀ own ∈ mod.records, patcher.world.pool.Holds own)
    (hnumbered : mod.KnowsNumbered patcher.repository patcher.world.pool)
    (earlier later : List String)
    (hunforced : ∀ statement ∈ (patcher.reset.start mod).statements (earlier ++ later),
      .forceSetField ∉ statement.node.procedures) :
    let between := patcher.afterLines mod earlier
    let after := patcher.afterLines mod (earlier ++ later)
    ∀ group ∈ between.environment.groups, ∀ ref ∈ group.records,
      (between.world.pool.get ref).SchemaKept (after.world.pool.get ref) := by
  intro between after group hgroup ref href
  have hpermits : (patcher.reset.start mod).Permits
      (.unforced patcher.world.pool.records.size) (earlier ++ later) := by
    rintro statement hstatement procedure hprocedure rfl
    exact hunforced statement hstatement hprocedure
  have hfirst := Nat.le_refl patcher.world.pool.records.size
  obtain ⟨-, hstart⟩ := afterLines_leads hfirst mod [] earlier (hpermits.left later)
  obtain ⟨hobeys, hrest⟩ := afterLines_leads hfirst mod earlier later hpermits
  -- Up to the group every move tells the records of the run apart; after it none changes a schema.
  have hrepository : between.repository = patcher.repository := hstart.repository
  have hapart : between.world.Apart between.repository
      (patcher.repository.Takes patcher.world.pool) patcher.world.pool.records.size := by
    rw [hrepository]
    obtain ⟨moves, htrail, -⟩ := hstart.world
    have hbegin : (patcher.reset.start mod).world.Apart patcher.repository
        (patcher.repository.Takes patcher.world.pool) patcher.world.pool.records.size :=
      .start hloaded.held hheld hnumbered rfl rfl
    exact htrail.keeps (fun _ hmove hbefore => hbefore.move hmove) hbegin
  obtain ⟨moves, htrail, hmoves⟩ := hrest.world
  obtain ⟨member, hmember, rfl⟩ := List.mem_map.mp href
  have hsound := (executeLines_proceeds 1 0 earlier (sound_start hloaded mod)).2.1
  have hmemberSound := (hsound.environment group hgroup).members member hmember
  exact htrail.schemaKept hmoves hapart hmemberSound.held
    (hobeys.environment.groups group hgroup _ href) hmemberSound.isNew

/-- Lines that change the weapon and its clones, and delete the clones. -/
def tempering : List String :=
  ["arms -> SetField(\"damage\", \"9\")", "twins -> SetField(\"damage\", \"8\")",
    "twins -> DeleteRecords()"]

/-- The mod with the weapon is patched itself. -/
theorem tempering_schemaKept :
    let between := armourer.afterLines armoury.2 forging
    let after := armourer.afterLines armoury.2 (forging ++ tempering)
    (executeLines 1 0 (forging ++ tempering) (armourer.reset.start armoury.2)).1.2.isNone ∧
      between.environment.groups.map Group.size = [1, 2, 2] ∧
        ∀ group ∈ between.environment.groups, ∀ ref ∈ group.records,
          (between.world.pool.get ref).SchemaKept (after.world.pool.get ref) := by
  refine ⟨by decide +kernel, by decide +kernel, ?_⟩
  have hheld : ∀ own ∈ armoury.2.records, armourer.world.pool.Holds own := fun own hown =>
    loaded_armourer.held own (Repository.mem_places.mpr
      ⟨armoury.2, List.mem_singleton_self _, hown⟩)
  have hnumbered : armoury.2.KnowsNumbered armourer.repository armourer.world.pool := by
    intro place hplace number hid
    obtain ⟨mod, hmod, hown⟩ := Repository.mem_places.mp hplace
    obtain rfl := List.mem_singleton.mp hmod
    exact Or.inl ⟨place, hown, rfl⟩
  exact afterLines_schemaKept loaded_armourer hheld hnumbered forging tempering
    (by decide +kernel)

end Patchwork
