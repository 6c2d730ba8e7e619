import Patchwork.Proofs.Merge.LastWriter
import Patchwork.Proofs.Remerge.Mirrors

/-!
# Where changing a mod starts

The mod that is changed is a second copy of the last mod of the load order.
Before anything is changed it mirrors the merged records of every kind.
-/

namespace Patchwork

namespace Repository

theorem list_add_of_new {repository : Repository} {mod : Mod}
    (hnew : repository.get? mod.name = none) :
    (repository.add mod).list = repository.list ++ [mod] := by
  simp only [list, add]
  rw [Entries.put_of_get?_eq_none hnew]
  simp

/-- A mod of the same name takes the place of the last one. -/
theorem list_add_add {repository : Repository} {mod again : Mod}
    (hnew : repository.get? mod.name = none) (hname : again.name = mod.name) :
    ((repository.add mod).add again).list = repository.list ++ [again] := by
  simp only [list, add, hname]
  rw [Entries.put_of_get?_eq_none hnew, Entries.put_append_of_get?_eq_none hnew]
  simp

end Repository

namespace Merge

/-- A copy of the last mod of the load order, to be changed.  The mods in front
have other records than the two copies; in the last mod each identifier stands
once, no identifier has two kinds, and what the last mod introduces is in no
other mod. -/
structure Baseline (pool : Pool) (front : Repository) (base active : Mod) : Prop where
  last : front.get? base.name = none
  name : active.name = base.name
  records : active.records.map pool.get = base.records.map pool.get
  undeleted : active.deleted = []
  held : ∀ mod ∈ front.list ++ [active], ∀ ref ∈ mod.records, pool.Holds ref
  apart : ∀ mod ∈ front.list, ∀ ref ∈ mod.records, ref ∉ base.records ∧ ref ∉ active.records
  once : (base.records.map fun own => (pool.get own).id).Nodup
  kinds : ∀ mod ∈ front.list ++ [base], ∀ ref ∈ mod.records, ∀ own ∈ base.records,
    (pool.get own).id = (pool.get ref).id → (pool.get own).kind = (pool.get ref).kind
  alone : ∀ own ∈ base.records, (pool.get own).isNew = true →
    ∀ mod ∈ front.list, ∀ ref ∈ mod.records, (pool.get ref).id ≠ (pool.get own).id
  tidy : ∀ own ∈ base.records, (pool.get own).Tidy

/-- Every merged record comes from a creator among the versions. -/
theorem creator_of_mem_merged {mods : List Mod} {kind : String} {pool : Pool}
    {entry : String × Record}
    (hentry : entry ∈ (mergeAll pool (Repository.collect pool kind mods)).merged) :
    mergedIn? mods kind pool entry.2.id = some entry ∧
      ∃ mod ∈ mods, ∃ ref ∈ mod.records, (pool.get ref).id = entry.2.id ∧
        (pool.get ref).kind = kind ∧ entry.2.kind = kind := by
  rw [merged_mergeAll, List.mem_filterMap] at hentry
  obtain ⟨id, -, hmerged⟩ := hentry
  have hid := id_of_mergedVersion? hmerged
  subst hid
  refine ⟨hmerged, ?_⟩
  obtain ⟨creator, hcreator, hentry⟩ := Option.map_eq_some_iff.mp hmerged
  obtain ⟨⟨mod, hmod, -, href⟩, hkind, hcreatorId⟩ :=
    mem_versionsIn.mp (creator?_mem hcreator)
  refine ⟨mod, hmod, creator.record, href, hcreatorId, hkind, ?_⟩
  rw [← hkind, ← hentry]
  exact keeps_mergeVersions Record.kind Record.kind_applyChanges pool creator _

theorem entriesOf_collect (mods : List Mod) (kind : String) (pool : Pool) (id : String) :
    (mergeAll pool (Repository.collect pool kind mods)).entriesOf id =
      (mergedIn? mods kind pool id).toList :=
  entriesOf_mergeAll pool _ id

namespace Baseline

variable {pool : Pool} {front : Repository} {base active : Mod}

/-- Each record of the changed copy has the content of one of the loaded
copy. -/
theorem exists_base (hbaseline : Baseline pool front base active) {own : RecordRef}
    (hown : own ∈ active.records) : ∃ twin ∈ base.records, pool.get twin = pool.get own := by
  have hmem : pool.get own ∈ active.records.map pool.get := List.mem_map_of_mem hown
  rw [hbaseline.records] at hmem
  exact List.mem_map.mp hmem

theorem version?_active (hbaseline : Baseline pool front base active) (id : String) :
    active.version? pool id = base.version? pool id := by
  rw [Mod.version?_eq, Mod.version?_eq, hbaseline.records]

theorem loadedLast (hbaseline : Baseline pool front base active) :
    LoadedLast front.list pool base where
  once := hbaseline.once
  apart mod hmod ref href := (hbaseline.apart mod hmod ref href).1
  alone := hbaseline.alone

theorem once_active (hbaseline : Baseline pool front base active) :
    (active.records.map fun own => (pool.get own).id).Nodup := by
  have hids := congrArg (List.map Record.id) hbaseline.records
  simp only [List.map_map] at hids
  change active.records.map (fun own => (pool.get own).id) =
    base.records.map fun own => (pool.get own).id at hids
  rw [hids]
  exact hbaseline.once

/-- The merged records of a kind, the changed copy and the mods in front are
apart. -/
theorem placed (hbaseline : Baseline pool front base active) (kind : String)
    {filled : Pool} {views : Group}
    (hplace : (mergeAll pool (Repository.collect pool kind (front.list ++ [base]))).place pool =
      (filled, views)) :
    Placed front.list kind views (base.introduced pool) filled active := by
  have hkept := keptIn_place
    (mergeAll pool (Repository.collect pool kind (front.list ++ [base]))) pool
  have hmembers := members_place
    (mergeAll pool (Repository.collect pool kind (front.list ++ [base]))) pool
  have hfresh := fresh_place
    (mergeAll pool (Repository.collect pool kind (front.list ++ [base]))) pool
  have hnodup := nodup_merged_mergeAll pool
    (Repository.collect pool kind (front.list ++ [base]))
  rw [hplace] at hkept hmembers hfresh
  have hmerged : ∀ view ∈ views.records, ∃ name,
      (name, filled.get view) ∈ (mergeAll pool (Repository.collect pool kind
        (front.list ++ [base]))).merged := by
    intro view hview
    obtain ⟨member, hmember, rfl⟩ := List.mem_map.mp hview
    refine ⟨member.mod, ?_⟩
    rw [← hmembers]
    exact List.mem_map_of_mem hmember
  have hactive : ∀ own ∈ active.records, filled.get own = pool.get own := fun own hown =>
    (hkept own (hbaseline.held active (by simp) own hown)).2
  have hheld : ∀ mod ∈ front.list, ∀ ref ∈ mod.records, pool.Holds ref :=
    fun mod hmod => hbaseline.held mod (List.mem_append_left _ hmod)
  exact {
    ownHeld := fun own hown => (hkept own (hbaseline.held active (by simp) own hown)).1
    viewHeld := fun view hview => (hfresh view hview).2
    frontHeld := fun mod hmod ref href => (hkept ref (hheld mod hmod ref href)).1
    ownApart := fun mod hmod ref href => (hbaseline.apart mod hmod ref href).2
    viewApart := fun mod hmod ref href hview =>
      (hfresh ref hview).1 (hheld mod hmod ref href)
    viewNotOwn := fun view hview hown =>
      (hfresh view hview).1 (hbaseline.held active (by simp) view hown)
    ownOnce := by
      rw [List.map_congr_left fun own hown => congrArg Record.id (hactive own hown)]
      exact hbaseline.once_active
    viewOnce := by
      rw [← hmembers, List.map_map] at hnodup
      rw [Group.records, List.map_map]
      exact hnodup
    viewKind := by
      intro view hview
      obtain ⟨name, hentry⟩ := hmerged view hview
      obtain ⟨-, _, -, _, -, -, -, hkind⟩ := creator_of_mem_merged hentry
      exact hkind
    ownKind := by
      intro own hown view hview hid
      obtain ⟨name, hentry⟩ := hmerged view hview
      obtain ⟨-, mod, hmod, ref, href, hrefId, hrefKind, -⟩ := creator_of_mem_merged hentry
      obtain ⟨twin, htwin, hcontent⟩ := hbaseline.exists_base hown
      rw [hactive own hown] at hid ⊢
      rw [← hcontent] at hid ⊢
      rw [hbaseline.kinds mod hmod ref href twin htwin (hid.trans hrefId.symm), hrefKind]
    introduced := by
      intro own hown hnew
      obtain ⟨twin, htwin, hcontent⟩ := hbaseline.exists_base hown
      rw [hactive own hown, ← hcontent] at hnew ⊢
      exact List.mem_map_of_mem (List.mem_filter.mpr ⟨htwin, hnew⟩)
    absent := by
      intro id hid mod hmod ref href
      obtain ⟨own, hown, rfl⟩ := List.mem_map.mp hid
      obtain ⟨hbase, hnew⟩ := List.mem_filter.mp hown
      rw [(hkept ref (hheld mod hmod ref href)).2]
      exact hbaseline.alone own hbase hnew mod hmod ref href }

/-- The copy that is to be changed mirrors the merged records. -/
theorem mirrors (hbaseline : Baseline pool front base active) (kind : String)
    {filled : Pool} {views : Group}
    (hplace : (mergeAll pool (Repository.collect pool kind (front.list ++ [base]))).place pool =
      (filled, views)) :
    Mirrors front.list kind views (base.introduced pool) filled active := by
  have hplaced := hbaseline.placed kind hplace
  have hkept := keptIn_place
    (mergeAll pool (Repository.collect pool kind (front.list ++ [base]))) pool
  have hmembers := members_place
    (mergeAll pool (Repository.collect pool kind (front.list ++ [base]))) pool
  rw [hplace] at hkept hmembers
  have hactive : ∀ own ∈ active.records, filled.get own = pool.get own := fun own hown =>
    (hkept own (hbaseline.held active (by simp) own hown)).2
  have hversions : ∀ id, active.version? filled id = base.version? pool id := by
    intro id
    rw [Mod.version?_congr hactive, hbaseline.version?_active]
  have hmerge : ∀ id, mergedIn? (front.list ++ [active]) kind filled id =
      mergedIn? (front.list ++ [base]) kind pool id := by
    intro id
    have hfront : ∀ mod ∈ front.list, ∀ ref ∈ mod.records, filled.get ref = pool.get ref :=
      fun mod hmod ref href =>
        (hkept ref (hbaseline.held mod (List.mem_append_left _ hmod) ref href)).2
    rw [mergedIn?_append_singleton hplaced.loadedLast,
      mergedIn?_append_singleton hbaseline.loadedLast, mergedIn?_congr hfront,
      hversions, hbaseline.name]
  exact {
    toPlaced := hplaced
    tidy := by
      intro own hown
      obtain ⟨twin, htwin, hcontent⟩ := hbaseline.exists_base hown
      rw [hactive own hown, ← hcontent]
      exact hbaseline.tidy twin htwin
    dropped := by
      intro id hid
      rw [hbaseline.undeleted] at hid
      cases hid
    present := by
      intro id hid _
      obtain ⟨own, hown, rfl⟩ := List.mem_map.mp hid
      obtain ⟨hbase, hnew⟩ := List.mem_filter.mp hown
      have honly := filter_eq_find?_toList hbaseline.once (pool.get own).id
      have hmem : own ∈ base.records.filter
          fun other => (pool.get other).id == (pool.get own).id :=
        List.mem_filter.mpr ⟨hbase, beq_self_eq_true _⟩
      rw [honly, Option.mem_toList] at hmem
      refine ⟨pool.get own, ?_, hnew⟩
      rw [hversions, Mod.version?, Mod.find?, hmem]
      rfl
    remade := by
      intro view hview _
      have hentry : (view.mod, filled.get view.record) ∈ (mergeAll pool
          (Repository.collect pool kind (front.list ++ [base]))).merged := by
        rw [← hmembers]
        exact List.mem_map_of_mem hview
      obtain ⟨hmerged, -⟩ := creator_of_mem_merged hentry
      exact ⟨filled.get view.record, (hmerge _).trans hmerged, Record.Alike.refl _⟩
    complete := by
      intro id habsent
      rw [hmerge, Option.eq_none_iff_forall_not_mem]
      intro entry hentry
      have hmem : entry ∈ (mergeAll pool
          (Repository.collect pool kind (front.list ++ [base]))).entriesOf id := by
        rw [entriesOf_collect]
        exact Option.mem_toList.mpr hentry
      obtain ⟨hmerged, hid⟩ := List.mem_filter.mp hmem
      rw [← hmembers] at hmerged
      obtain ⟨view, hview, rfl⟩ := List.mem_map.mp hmerged
      exact habsent view.record (List.mem_map_of_mem hview) (eq_of_beq hid) }

end Baseline

end Merge

end Patchwork
