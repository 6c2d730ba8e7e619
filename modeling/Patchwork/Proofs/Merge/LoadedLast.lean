import Patchwork.Proofs.Merge.Identities
import Patchwork.Proofs.Record.Content
import Patchwork.Proofs.Record.Pool

/-!
# The mod at the end of the load order

What the versions of all mods are merged into, when one mod is behind all the
others: the record the others are merged into with the last mod's own version
applied to it, or that version itself if it introduces the record.
-/

namespace Patchwork

theorem find?_congr_mem {Item : Type} {accepts agrees : Item → Bool} {items : List Item}
    (hsame : ∀ item ∈ items, accepts item = agrees item) :
    items.find? accepts = items.find? agrees := by
  induction items with
  | nil => rfl
  | cons first rest ih =>
    have hrest := ih fun item hitem => hsame item (List.mem_cons_of_mem _ hitem)
    rw [List.find?_cons, List.find?_cons, hsame first List.mem_cons_self, hrest]

/-- Of items with different keys only one has a given key. -/
theorem filter_eq_find?_toList {Item Key : Type} [BEq Key] [LawfulBEq Key]
    {keyOf : Item → Key} {items : List Item} (hnodup : (items.map keyOf).Nodup) (key : Key) :
    items.filter (fun item => keyOf item == key) =
      (items.find? fun item => keyOf item == key).toList := by
  induction items with
  | nil => rfl
  | cons first rest ih =>
    obtain ⟨hnotin, hrest⟩ := List.nodup_cons.mp hnodup
    by_cases hkey : keyOf first = key
    · have hnone : rest.filter (fun item => keyOf item == key) = [] := by
        rw [List.filter_eq_nil_iff]
        intro item hitem heq
        apply hnotin
        rw [hkey, ← eq_of_beq heq]
        exact List.mem_map_of_mem hitem
      simp [hkey, hnone]
    · simp [hkey, ih hrest]

namespace Mod

/-- The content of the first record with an identifier. -/
def version? (mod : Mod) (pool : Pool) (id : String) : Option Record :=
  (mod.find? pool id).map pool.get

theorem version?_eq (mod : Mod) (pool : Pool) (id : String) :
    mod.version? pool id = (mod.records.map pool.get).find? fun record => record.id == id := by
  rw [version?, find?, List.find?_map]
  rfl

theorem mem_of_find? {mod : Mod} {pool : Pool} {id : String} {own : RecordRef}
    (hfind : mod.find? pool id = some own) : own ∈ mod.records ∧ (pool.get own).id = id := by
  refine ⟨List.mem_of_find?_eq_some hfind, ?_⟩
  simpa using List.find?_some hfind

theorem find?_eq_none {mod : Mod} {pool : Pool} {id : String} :
    mod.find? pool id = none ↔ ∀ own ∈ mod.records, (pool.get own).id ≠ id := by
  simp [find?]

end Mod

namespace Merge

/-! ## Pools that agree -/

theorem creator?_congr {pool later : Pool} {versions : List Member}
    (hsame : ∀ version ∈ versions, later.get version.record = pool.get version.record) :
    creator? later versions = creator? pool versions :=
  find?_congr_mem fun version hversion => by rw [hsame version hversion]

theorem mergeVersions_congr {pool later : Pool} {creator : Member} {versions : List Member}
    (hcreator : creator ∈ versions)
    (hsame : ∀ version ∈ versions, later.get version.record = pool.get version.record) :
    mergeVersions later creator versions = mergeVersions pool creator versions := by
  have hothers : (versions.filter fun version => version.record ≠ creator.record).map
        (fun version => later.get version.record) =
      (versions.filter fun version => version.record ≠ creator.record).map
        fun version => pool.get version.record :=
    List.map_congr_left fun version hversion => hsame version (List.mem_filter.mp hversion).1
  rw [mergeVersions, mergeVersions, hsame creator hcreator,
    ← List.foldl_map (f := fun version : Member => later.get version.record), hothers,
    List.foldl_map]

theorem mergedVersion?_congr {pool later : Pool} {versions : List Member}
    (hsame : ∀ version ∈ versions, later.get version.record = pool.get version.record) :
    mergedVersion? later versions = mergedVersion? pool versions := by
  rw [mergedVersion?, mergedVersion?, creator?_congr hsame]
  cases hcreator : creator? pool versions with
  | none => rfl
  | some creator => simp [mergeVersions_congr (creator?_mem hcreator) hsame]

/-- The versions of one identifier and one kind that the mods hold. -/
def versionsIn (mods : List Mod) (kind : String) (pool : Pool) (id : String) : List Member :=
  versionsOf pool (Repository.collect pool kind mods) id

theorem mem_versionsIn {mods : List Mod} {kind : String} {pool : Pool} {id : String}
    {version : Member} :
    version ∈ versionsIn mods kind pool id ↔
      (∃ mod ∈ mods, version.mod = mod.name ∧ version.record ∈ mod.records) ∧
        (pool.get version.record).kind = kind ∧ (pool.get version.record).id = id := by
  obtain ⟨name, ref⟩ := version
  simp only [versionsIn, mem_versionsOf, Repository.collect, List.mem_flatMap, List.mem_map,
    Mod.ofKind, List.mem_filter, beq_iff_eq, Member.mk.injEq, identity]
  constructor
  · rintro ⟨⟨mod, hmod, other, ⟨hother, hkind⟩, rfl, rfl⟩, hid⟩
    exact ⟨⟨mod, hmod, rfl, hother⟩, hkind, hid⟩
  · rintro ⟨⟨mod, hmod, rfl, hother⟩, hkind, hid⟩
    exact ⟨⟨mod, hmod, ref, ⟨hother, hkind⟩, rfl, rfl⟩, hid⟩

theorem versionsIn_append (first second : List Mod) (kind : String) (pool : Pool)
    (id : String) :
    versionsIn (first ++ second) kind pool id =
      versionsIn first kind pool id ++ versionsIn second kind pool id := by
  simp [versionsIn, Repository.collect, versionsOf_append]

theorem versionsIn_congr {pool later : Pool} {mods : List Mod}
    (hsame : ∀ mod ∈ mods, ∀ ref ∈ mod.records, later.get ref = pool.get ref)
    (kind id : String) : versionsIn mods kind later id = versionsIn mods kind pool id := by
  induction mods with
  | nil => rfl
  | cons mod rest ih =>
    have hrest := ih fun other hother => hsame other (List.mem_cons_of_mem _ hother)
    have hmod : versionsIn [mod] kind later id = versionsIn [mod] kind pool id := by
      simp only [versionsIn, Repository.collect, List.flatMap_singleton, versionsOf,
        List.filter_map, Mod.ofKind, List.filter_filter]
      congr 1
      apply List.filter_congr
      intro ref href
      simp [identity, hsame mod List.mem_cons_self ref href]
    rw [← List.singleton_append, versionsIn_append, versionsIn_append, hmod, hrest]

/-! ## One mod behind the others -/

/-- What the versions of one identifier and one kind are merged into. -/
def mergedIn? (mods : List Mod) (kind : String) (pool : Pool) (id : String) :
    Option (String × Record) :=
  mergedVersion? pool (versionsIn mods kind pool id)

theorem mergedIn?_congr {pool later : Pool} {mods : List Mod}
    (hsame : ∀ mod ∈ mods, ∀ ref ∈ mod.records, later.get ref = pool.get ref)
    (kind id : String) : mergedIn? mods kind later id = mergedIn? mods kind pool id := by
  rw [mergedIn?, versionsIn_congr hsame]
  apply mergedVersion?_congr
  intro version hversion
  obtain ⟨⟨mod, hmod, -, href⟩, -, -⟩ := mem_versionsIn.mp hversion
  exact hsame mod hmod version.record href

/-- A merged record with one more version applied to it; a version that
introduces the record stands for itself. -/
def overlaid (merged : Option (String × Record)) (mod : String) : Option Record →
    Option (String × Record)
  | none => merged
  | some own =>
    if own.isNew then some (mod, own)
    else merged.map fun (creator, record) => (creator, record.applyChanges own)

/-- A mod that fits behind others: it has its own records, each identifier once,
and no other mod has an identifier that it introduces. -/
structure LoadedLast (front : List Mod) (pool : Pool) (mod : Mod) : Prop where
  once : (mod.records.map fun own => (pool.get own).id).Nodup
  apart : ∀ other ∈ front, ∀ ref ∈ other.records, ref ∉ mod.records
  alone : ∀ own ∈ mod.records, (pool.get own).isNew = true →
    ∀ other ∈ front, ∀ ref ∈ other.records, (pool.get ref).id ≠ (pool.get own).id

theorem versionsIn_singleton {pool : Pool} {mod : Mod}
    (honce : (mod.records.map fun own => (pool.get own).id).Nodup) (kind id : String) :
    versionsIn [mod] kind pool id =
      ((mod.find? pool id).toList.filter fun own => (pool.get own).kind == kind).map
        (Member.mk mod.name) := by
  simp only [versionsIn, Repository.collect, List.flatMap_singleton, versionsOf,
    List.filter_map, Mod.ofKind, List.filter_filter]
  rw [Mod.find?, ← filter_eq_find?_toList honce id, List.filter_filter]
  congr 1
  apply List.filter_congr
  intro own _
  simp [identity, Bool.and_comm]

/-- One version at the end of the list that introduces nothing. -/
theorem mergedVersion?_append_override {pool : Pool} {versions : List Member} {own : Member}
    (hapart : ∀ version ∈ versions, version.record ≠ own.record)
    (hoverride : (pool.get own.record).isNew = false) :
    mergedVersion? pool (versions ++ [own]) =
      (mergedVersion? pool versions).map fun (creator, record) =>
        (creator, record.applyChanges (pool.get own.record)) := by
  have hcreator : creator? pool (versions ++ [own]) = creator? pool versions := by
    simp [creator?, List.find?_append, hoverride]
  rw [mergedVersion?, mergedVersion?, hcreator]
  cases hfound : creator? pool versions with
  | none => rfl
  | some creator =>
    have hother : own.record ≠ creator.record := (hapart creator (creator?_mem hfound)).symm
    simp [mergeVersions, hother]

/-- The merge of all versions, from the merge of the versions in front and the
last mod's own version. -/
theorem mergedIn?_append_singleton {front : List Mod} {pool : Pool} {mod : Mod}
    (hlast : LoadedLast front pool mod) (kind id : String) :
    mergedIn? (front ++ [mod]) kind pool id =
      overlaid (mergedIn? front kind pool id) mod.name
        ((mod.version? pool id).filter fun own => own.kind == kind) := by
  rw [mergedIn?, versionsIn_append, versionsIn_singleton hlast.once, Mod.version?, mergedIn?]
  cases hfind : mod.find? pool id with
  | none => simp [overlaid]
  | some own =>
    obtain ⟨hmem, hid⟩ := Mod.mem_of_find? hfind
    by_cases hkind : (pool.get own).kind = kind
    · have hown : (([own] : List RecordRef).filter fun own => (pool.get own).kind == kind) =
          [own] := by simp [hkind]
      simp only [Option.toList_some, hown, List.map_singleton, Option.map_some, Option.filter,
        hkind, beq_self_eq_true, if_true, overlaid]
      by_cases hnew : (pool.get own).isNew = true
      · have hnil : versionsIn front kind pool id = [] := by
          rw [List.eq_nil_iff_forall_not_mem]
          intro version hversion
          obtain ⟨⟨other, hother, -, href⟩, -, hsame⟩ := mem_versionsIn.mp hversion
          exact hlast.alone own hmem hnew other hother version.record href (hsame.trans hid.symm)
        simp [hnil, hnew, mergedVersion?, creator?, mergeVersions]
      · rw [if_neg hnew]
        apply mergedVersion?_append_override
        · intro version hversion heq
          obtain ⟨⟨other, hother, -, href⟩, -, -⟩ := mem_versionsIn.mp hversion
          exact hlast.apart other hother version.record href (heq ▸ hmem)
        · simpa using hnew
    · simp [overlaid, Option.filter, hkind]

end Merge

end Patchwork
