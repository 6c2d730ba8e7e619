import Patchwork.Proofs.Merge.LoadedLast

/-!
# Where records are while a mod is changed

While the merged records of a kind are changed, three sets of records are
around: those of the mods in front, which stay as they are; the merged records,
called views; and the mod's own versions.  They have nothing in common.  This
file says so, and that it stays so when versions are added and dropped, as long
as no record changes its identifier, its kind or its standing.
-/

namespace Patchwork

namespace Pool

/-- Every record of the first pool is in the second one with the same
identifier, kind and standing. -/
structure SameCards (pool later : Pool) : Prop where
  holds : ∀ ref, pool.Holds ref → later.Holds ref
  id : ∀ ref, pool.Holds ref → (later.get ref).id = (pool.get ref).id
  kind : ∀ ref, pool.Holds ref → (later.get ref).kind = (pool.get ref).kind
  isNew : ∀ ref, pool.Holds ref → (later.get ref).isNew = (pool.get ref).isNew

theorem KeptIn.sameCards {pool later : Pool} (hkept : pool.KeptIn later) :
    pool.SameCards later where
  holds ref hholds := (hkept ref hholds).1
  id ref hholds := by rw [(hkept ref hholds).2]
  kind ref hholds := by rw [(hkept ref hholds).2]
  isNew ref hholds := by rw [(hkept ref hholds).2]

theorem SameCards.trans {first second third : Pool} (hleft : first.SameCards second)
    (hright : second.SameCards third) : first.SameCards third where
  holds ref hholds := hright.holds ref (hleft.holds ref hholds)
  id ref hholds := (hright.id ref (hleft.holds ref hholds)).trans (hleft.id ref hholds)
  kind ref hholds := (hright.kind ref (hleft.holds ref hholds)).trans (hleft.kind ref hholds)
  isNew ref hholds := (hright.isNew ref (hleft.holds ref hholds)).trans (hleft.isNew ref hholds)

theorem sameCards_modify_apply (pool : Pool) (ref : RecordRef) (edit : Record.Edit) :
    pool.SameCards (pool.modify ref edit.apply) where
  holds _ hholds := holds_modify.mpr hholds
  id other _ := read_modify Record.id edit.id_apply pool ref other
  kind other _ := read_modify Record.kind edit.kind_apply pool ref other
  isNew other _ := read_modify Record.isNew edit.isNew_apply pool ref other

end Pool

namespace Merge

/-- The records of the mods in front, the views and the mod's own versions are
apart; no identifier has two kinds, and an identifier that the mod introduces is
the mod's alone. -/
structure Placed (front : List Mod) (kind : String) (views : Group) (created : List String)
    (pool : Pool) (mod : Mod) : Prop where
  ownHeld : ∀ own ∈ mod.records, pool.Holds own
  viewHeld : ∀ view ∈ views.records, pool.Holds view
  frontHeld : ∀ other ∈ front, ∀ ref ∈ other.records, pool.Holds ref
  ownApart : ∀ other ∈ front, ∀ ref ∈ other.records, ref ∉ mod.records
  viewApart : ∀ other ∈ front, ∀ ref ∈ other.records, ref ∉ views.records
  viewNotOwn : ∀ view ∈ views.records, view ∉ mod.records
  ownOnce : (mod.records.map fun own => (pool.get own).id).Nodup
  viewOnce : (views.records.map fun view => (pool.get view).id).Nodup
  viewKind : ∀ view ∈ views.records, (pool.get view).kind = kind
  ownKind : ∀ own ∈ mod.records, ∀ view ∈ views.records,
    (pool.get own).id = (pool.get view).id → (pool.get own).kind = kind
  introduced : ∀ own ∈ mod.records, (pool.get own).isNew = true →
    (pool.get own).id ∈ created
  absent : ∀ id ∈ created, ∀ other ∈ front, ∀ ref ∈ other.records, (pool.get ref).id ≠ id

namespace Placed

variable {front : List Mod} {kind : String} {views : Group} {created : List String}
variable {pool : Pool} {mod : Mod}

theorem loadedLast (hplaced : Placed front kind views created pool mod) :
    LoadedLast front pool mod where
  once := hplaced.ownOnce
  apart := hplaced.ownApart
  alone own hown hnew := hplaced.absent _ (hplaced.introduced own hown hnew)

theorem of_sameCards (hplaced : Placed front kind views created pool mod) {later : Pool}
    (hcards : pool.SameCards later) : Placed front kind views created later mod where
  ownHeld own hown := hcards.holds own (hplaced.ownHeld own hown)
  viewHeld view hview := hcards.holds view (hplaced.viewHeld view hview)
  frontHeld other hother ref href := hcards.holds ref (hplaced.frontHeld other hother ref href)
  ownApart := hplaced.ownApart
  viewApart := hplaced.viewApart
  viewNotOwn := hplaced.viewNotOwn
  ownOnce := by
    rw [List.map_congr_left fun own hown => hcards.id own (hplaced.ownHeld own hown)]
    exact hplaced.ownOnce
  viewOnce := by
    rw [List.map_congr_left fun view hview => hcards.id view (hplaced.viewHeld view hview)]
    exact hplaced.viewOnce
  viewKind view hview := by
    rw [hcards.kind view (hplaced.viewHeld view hview), hplaced.viewKind view hview]
  ownKind own hown view hview hid := by
    rw [hcards.id own (hplaced.ownHeld own hown),
      hcards.id view (hplaced.viewHeld view hview)] at hid
    rw [hcards.kind own (hplaced.ownHeld own hown), hplaced.ownKind own hown view hview hid]
  introduced own hown hnew := by
    rw [hcards.isNew own (hplaced.ownHeld own hown)] at hnew
    rw [hcards.id own (hplaced.ownHeld own hown)]
    exact hplaced.introduced own hown hnew
  absent id hid other hother ref href := by
    rw [hcards.id ref (hplaced.frontHeld other hother ref href)]
    exact hplaced.absent id hid other hother ref href

/-- One more version of a view that the mod has no version of. -/
theorem addRecord (hplaced : Placed front kind views created pool mod) {own view : RecordRef}
    (hheld : pool.Holds own) (hfront : ∀ other ∈ front, own ∉ other.records)
    (hviews : own ∉ views.records) (hid : (pool.get own).id = (pool.get view).id)
    (hkind : (pool.get own).kind = kind) (hnew : (pool.get own).isNew = false)
    (hnone : mod.find? pool (pool.get view).id = none) :
    Placed front kind views created pool (mod.addRecord own) where
  ownHeld := by
    simp only [Mod.addRecord, List.mem_append, List.mem_singleton]
    rintro other (hother | rfl)
    · exact hplaced.ownHeld other hother
    · exact hheld
  viewHeld := hplaced.viewHeld
  frontHeld := hplaced.frontHeld
  ownApart := by
    intro other hother ref href
    simp only [Mod.addRecord, List.mem_append, List.mem_singleton, not_or]
    refine ⟨hplaced.ownApart other hother ref href, ?_⟩
    rintro rfl
    exact hfront other hother href
  viewApart := hplaced.viewApart
  viewNotOwn := by
    intro other hother
    simp only [Mod.addRecord, List.mem_append, List.mem_singleton, not_or]
    refine ⟨hplaced.viewNotOwn other hother, ?_⟩
    rintro rfl
    exact hviews hother
  ownOnce := by
    simp only [Mod.addRecord, List.map_append, List.map_cons, List.map_nil]
    apply List.nodup_append.mpr
    refine ⟨hplaced.ownOnce, List.nodup_singleton _, ?_⟩
    intro id hmem last hlast heq
    obtain ⟨other, hother, rfl⟩ := List.mem_map.mp hmem
    rw [List.mem_singleton.mp hlast, hid] at heq
    exact Mod.find?_eq_none.mp hnone other hother heq
  viewOnce := hplaced.viewOnce
  viewKind := hplaced.viewKind
  ownKind := by
    simp only [Mod.addRecord, List.mem_append, List.mem_singleton]
    rintro other (hother | rfl)
    · exact hplaced.ownKind other hother
    · exact fun _ _ _ => hkind
  introduced := by
    simp only [Mod.addRecord, List.mem_append, List.mem_singleton]
    rintro other (hother | rfl)
    · exact hplaced.introduced other hother
    · intro hother
      rw [hnew] at hother
      cases hother
  absent := hplaced.absent

/-- Some versions dropped. -/
theorem of_sublist (hplaced : Placed front kind views created pool mod) {fewer : Mod}
    (hfewer : fewer.records.Sublist mod.records) :
    Placed front kind views created pool fewer where
  ownHeld own hown := hplaced.ownHeld own (hfewer.subset hown)
  viewHeld := hplaced.viewHeld
  frontHeld := hplaced.frontHeld
  ownApart other hother ref href hown :=
    hplaced.ownApart other hother ref href (hfewer.subset hown)
  viewApart := hplaced.viewApart
  viewNotOwn view hview hown := hplaced.viewNotOwn view hview (hfewer.subset hown)
  ownOnce := hplaced.ownOnce.sublist (hfewer.map _)
  viewOnce := hplaced.viewOnce
  viewKind := hplaced.viewKind
  ownKind own hown := hplaced.ownKind own (hfewer.subset hown)
  introduced own hown := hplaced.introduced own (hfewer.subset hown)
  absent := hplaced.absent

/-- The views are told apart by their identifiers. -/
theorem view_unique (hplaced : Placed front kind views created pool mod)
    {left right : RecordRef} (hleft : left ∈ views.records) (hright : right ∈ views.records)
    (hid : (pool.get left).id = (pool.get right).id) : left = right :=
  List.inj_on_of_nodup_map hplaced.viewOnce hleft hright hid

/-- The mod's version of a view has the kind of the view. -/
theorem filter_version? (hplaced : Placed front kind views created pool mod)
    {view : RecordRef} (hview : view ∈ views.records) :
    ((mod.version? pool (pool.get view).id).filter fun own => own.kind == kind) =
      mod.version? pool (pool.get view).id := by
  rw [Mod.version?]
  cases hfind : mod.find? pool (pool.get view).id with
  | none => rfl
  | some own =>
    obtain ⟨hown, hid⟩ := Mod.mem_of_find? hfind
    simp [Option.filter, hplaced.ownKind own hown view hview hid]

end Placed

end Merge

end Patchwork
