import Patchwork.Proofs.Remerge.Placed

/-!
# A mod that mirrors its views

The invariant of changing merged records: merging all versions again gives each
view whose record was not dropped its content.  A change is made twice, to the
mod's own version and to the view, and for each kind of change this file says
that the invariant outlives it.
-/

namespace Patchwork

namespace Mod

variable {pool later : Pool} {mod : Mod}

theorem version?_congr (hsame : ∀ own ∈ mod.records, later.get own = pool.get own)
    (id : String) : mod.version? later id = mod.version? pool id := by
  rw [version?_eq, version?_eq, List.map_congr_left hsame]

theorem find?_congr (hsame : ∀ own ∈ mod.records, (later.get own).id = (pool.get own).id)
    (id : String) : mod.find? later id = mod.find? pool id :=
  find?_congr_mem fun own hown => by rw [hsame own hown]

theorem version?_eq_none {id : String} :
    mod.version? pool id = none ↔ mod.find? pool id = none := by
  simp [version?]

theorem version?_addRecord (pool : Pool) (mod : Mod) (own : RecordRef) (id : String) :
    (mod.addRecord own).version? pool id =
      (mod.version? pool id).or
        (if (pool.get own).id = id then some (pool.get own) else none) := by
  rw [version?_eq, version?_eq, addRecord, List.map_append, List.find?_append]
  by_cases hid : (pool.get own).id = id <;> simp [hid]

theorem find?_addRecord {own : RecordRef} {id : String} (hnone : mod.find? pool id = none)
    (hid : (pool.get own).id = id) : (mod.addRecord own).find? pool id = some own := by
  rw [find?] at hnone
  rw [find?, addRecord, List.find?_append, hnone]
  simp [hid]

theorem version?_modify_self {own : RecordRef} {id : String}
    (hfind : mod.find? pool id = some own) (hheld : pool.Holds own) (edit : Record.Edit) :
    mod.version? (pool.modify own edit.apply) id = some (edit.apply (pool.get own)) := by
  rw [version?, find?_congr fun other _ => Pool.read_modify Record.id edit.id_apply pool own other,
    hfind, Option.map_some, Pool.get_modify_self _ hheld]

theorem version?_modify_of_ne {own : RecordRef} {id : String} (hid : (pool.get own).id ≠ id)
    (edit : Record.Edit) :
    mod.version? (pool.modify own edit.apply) id = mod.version? pool id := by
  rw [version?, find?_congr fun other _ => Pool.read_modify Record.id edit.id_apply pool own other,
    version?]
  cases hfind : mod.find? pool id with
  | none => rfl
  | some found =>
    have hne : own ≠ found := by
      rintro rfl
      exact hid (mem_of_find? hfind).2
    rw [Option.map_some, Option.map_some, Pool.get_modify_of_ne _ hne]

/-- The mod after one of its own records was dropped. -/
def dropRecord (mod : Mod) (own : RecordRef) (id : String) : Mod :=
  { mod with records := mod.records.erase own, deleted := mod.deleted ++ [id] }

theorem version?_dropRecord (honce : (mod.records.map fun own => (pool.get own).id).Nodup)
    {own : RecordRef} (hown : own ∈ mod.records) (dropped id : String) :
    (mod.dropRecord own dropped).version? pool id =
      if (pool.get own).id = id then none else mod.version? pool id := by
  obtain ⟨before, after, -, hrecords, herase⟩ := List.exists_erase_eq hown
  rw [hrecords, List.map_append, List.map_cons] at honce
  have hothers := (List.nodup_cons.mp (List.nodup_middle.mp honce)).1
  rw [version?_eq, version?_eq, dropRecord, herase, hrecords]
  by_cases hid : (pool.get own).id = id
  · rw [if_pos hid, List.find?_eq_none]
    intro record hrecord heq
    obtain ⟨other, hother, rfl⟩ := List.mem_map.mp hrecord
    apply hothers
    rw [hid, ← eq_of_beq heq, ← List.map_append]
    exact List.mem_map_of_mem hother
  · simp [List.find?_append, hid]

end Mod

namespace Merge

/-! ## One version and the merged record -/

/-- Editing the own version edits the merged record. -/
theorem overlaid_edit {merged : Option (String × Record)} {name creator : String}
    {own again : Record} (htidy : own.Tidy)
    (hmerged : overlaid merged name (some own) = some (creator, again)) (edit : Record.Edit) :
    ∃ edited, overlaid merged name (some (edit.apply own)) = some (creator, edited) ∧
      edited.Alike (edit.apply again) := by
  simp only [overlaid, Record.Edit.isNew_apply] at hmerged ⊢
  by_cases hnew : own.isNew = true
  · simp only [hnew, if_true, Option.some.injEq, Prod.mk.injEq] at hmerged ⊢
    obtain ⟨rfl, rfl⟩ := hmerged
    exact ⟨edit.apply own, ⟨rfl, rfl⟩, Record.Alike.refl _⟩
  · rw [if_neg hnew, Option.map_eq_some_iff] at hmerged
    obtain ⟨⟨mod, record⟩, rfl, heq⟩ := hmerged
    cases heq
    rw [if_neg hnew]
    exact ⟨record.applyChanges (edit.apply own), rfl,
      edit.applyChanges_apply_alike record htidy⟩

/-- The version a mod gets of a record it has no version of. -/
def overrideOf (view : Record) (mod : String) : Record :=
  { id := view.id, kind := view.kind, name := view.name, mod := mod }

/-- Such a version changes nothing. -/
theorem overlaid_overrideOf {merged : Option (String × Record)} {name creator : String}
    {again view : Record} (hmerged : overlaid merged name none = some (creator, again))
    (halike : again.Alike view) :
    ∃ adopted, overlaid merged name (some (overrideOf view name)) = some (creator, adopted) ∧
      adopted.Alike view := by
  have hsome : merged = some (creator, again) := hmerged
  subst hsome
  refine ⟨again.applyChanges (overrideOf view name), rfl, ?_, halike.fields, halike.links⟩
  by_cases hempty : view.name = ""
  · simpa [Record.applyChanges, overrideOf, hempty] using halike.name
  · simp [Record.applyChanges, overrideOf, hempty]

/-! ## The invariant -/

/-- Merging all versions again gives a view its content, under its mod. -/
def Remade (front : List Mod) (kind : String) (pool : Pool) (mod : Mod) (view : Member) :
    Prop :=
  ∃ again,
    mergedIn? (front ++ [mod]) kind pool (pool.get view.record).id = some (view.mod, again) ∧
      again.Alike (pool.get view.record)

/-- The mod mirrors the views: what was dropped from it was introduced by it,
what it introduced and did not drop is still there, and merging again gives the
views and nothing else. -/
structure Mirrors (front : List Mod) (kind : String) (views : Group) (created : List String)
    (pool : Pool) (mod : Mod) : Prop extends
    Placed front kind views created pool mod where
  tidy : ∀ own ∈ mod.records, (pool.get own).Tidy
  dropped : ∀ id ∈ mod.deleted, id ∈ created ∧ mod.version? pool id = none
  present : ∀ id ∈ created, id ∉ mod.deleted →
    ∃ own, mod.version? pool id = some own ∧ own.isNew = true
  remade : ∀ view ∈ views.members, (pool.get view.record).id ∉ mod.deleted →
    Remade front kind pool mod view
  complete : ∀ id, (∀ view ∈ views.records, (pool.get view).id ≠ id) →
    mergedIn? (front ++ [mod]) kind pool id = none

namespace Mirrors

variable {front : List Mod} {kind : String} {views : Group} {created : List String}
variable {pool : Pool} {mod : Mod}

theorem mem_records {member : Member} (hmember : member ∈ views.members) :
    member.record ∈ views.records :=
  List.mem_map_of_mem hmember

theorem overlaid_of_remade (hmirrors : Mirrors front kind views created pool mod)
    {view : Member} (hview : view ∈ views.members)
    (hdeleted : (pool.get view.record).id ∉ mod.deleted) :
    ∃ again,
      overlaid (mergedIn? front kind pool (pool.get view.record).id) mod.name
        (mod.version? pool (pool.get view.record).id) = some (view.mod, again) ∧
      again.Alike (pool.get view.record) := by
  obtain ⟨again, hagain, halike⟩ := hmirrors.remade view hview hdeleted
  rw [mergedIn?_append_singleton hmirrors.loadedLast,
    hmirrors.filter_version? (mem_records hview)] at hagain
  exact ⟨again, hagain, halike⟩

/-- A change that is about one view only. -/
theorem of_change (hmirrors : Mirrors front kind views created pool mod)
    {later : Pool} {changed : Mod} {target : RecordRef} (htarget : target ∈ views.records)
    (hplaced : Placed front kind views created later changed)
    (hcards : pool.SameCards later) (hname : changed.name = mod.name)
    (hfront : ∀ other ∈ front, ∀ ref ∈ other.records, later.get ref = pool.get ref)
    (hversions : ∀ id ≠ (pool.get target).id,
      changed.version? later id = mod.version? pool id)
    (hviews : ∀ view ∈ views.records, view ≠ target → later.get view = pool.get view)
    (htidy : ∀ own ∈ changed.records, (later.get own).Tidy)
    (hdeleted : ∀ id ≠ (pool.get target).id, id ∈ changed.deleted ↔ id ∈ mod.deleted)
    (hdropped : (pool.get target).id ∈ changed.deleted → (pool.get target).id ∈ created ∧
      changed.version? later (pool.get target).id = none)
    (hpresent : (pool.get target).id ∈ created → (pool.get target).id ∉ changed.deleted →
      ∃ own, changed.version? later (pool.get target).id = some own ∧ own.isNew = true)
    (hremade : ∀ view ∈ views.members, view.record = target →
      (pool.get target).id ∉ changed.deleted →
      ∃ again,
        overlaid (mergedIn? front kind pool (pool.get target).id) mod.name
          (changed.version? later (pool.get target).id) = some (view.mod, again) ∧
        again.Alike (later.get target)) :
    Mirrors front kind views created later changed where
  toPlaced := hplaced
  tidy := htidy
  dropped := by
    intro id hid
    by_cases heq : id = (pool.get target).id
    · subst heq
      exact hdropped hid
    · rw [hversions id heq]
      exact hmirrors.dropped id ((hdeleted id heq).mp hid)
  present := by
    intro id hid hkept
    by_cases heq : id = (pool.get target).id
    · subst heq
      exact hpresent hid hkept
    · rw [hversions id heq]
      exact hmirrors.present id hid fun hmem => hkept ((hdeleted id heq).mpr hmem)
  remade := by
    intro view hview hkept
    have hrecord := mem_records hview
    have hid := hcards.id view.record (hmirrors.viewHeld _ hrecord)
    have hfilter := hplaced.filter_version? hrecord
    rw [hid] at hkept hfilter
    by_cases heq : view.record = target
    · obtain ⟨again, hagain, halike⟩ := hremade view hview heq (heq ▸ hkept)
      refine ⟨again, ?_, heq ▸ halike⟩
      rw [mergedIn?_append_singleton hplaced.loadedLast, hid, hfilter,
        mergedIn?_congr hfront, hname, heq]
      exact hagain
    · have hne : (pool.get view.record).id ≠ (pool.get target).id := fun hsame =>
        heq (hmirrors.view_unique hrecord htarget hsame)
      obtain ⟨again, hagain, halike⟩ := hmirrors.overlaid_of_remade hview fun hmem =>
        hkept ((hdeleted _ hne).mpr hmem)
      refine ⟨again, ?_, hviews _ hrecord heq ▸ halike⟩
      rw [mergedIn?_append_singleton hplaced.loadedLast, hid, hfilter,
        mergedIn?_congr hfront, hname, hversions _ hne]
      exact hagain
  complete := by
    intro id habsent
    have hold : ∀ view ∈ views.records, (pool.get view).id ≠ id := by
      intro view hview
      rw [← hcards.id view (hmirrors.viewHeld view hview)]
      exact habsent view hview
    have hne : id ≠ (pool.get target).id := fun heq => hold target htarget heq.symm
    have hnone := hmirrors.complete id hold
    rw [mergedIn?_append_singleton hmirrors.loadedLast] at hnone
    rw [mergedIn?_append_singleton hplaced.loadedLast, mergedIn?_congr hfront, hname,
      hversions id hne]
    exact hnone

end Mirrors

end Merge

end Patchwork
