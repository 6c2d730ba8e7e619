import Mathlib.Data.List.Induction
import Patchwork.Merge
import Patchwork.Proofs.Entries
import Patchwork.Proofs.Record.Pool

/-!
# Merging one identity at a time

The merge walks over a list of versions and files each under its identifier.
This file gives the result without the walk: the identifiers in the order in
which each came first, each with its versions in the order of the list, and one
merged record for each identifier that some version creates.
-/

namespace Patchwork

theorem distinct_append_singleton {Item : Type} [BEq Item] [LawfulBEq Item]
    (items : List Item) (last : Item) :
    distinct (items ++ [last]) =
      if last ∈ items then distinct items else distinct items ++ [last] := by
  induction items with
  | nil => rfl
  | cons first rest ih =>
    simp only [List.cons_append, distinct, ih]
    by_cases hfirst : last = first
    · subst hfirst
      by_cases hrest : last ∈ rest <;> simp [hrest]
    · by_cases hrest : last ∈ rest
      · simp [hrest]
      · simp [hrest, hfirst]

namespace Merge

/-- The identifier of the record of a member. -/
def identity (pool : Pool) (member : Member) : String :=
  (pool.get member.record).id

/-- The identifiers in a list, in the order in which each came first. -/
def identities (pool : Pool) (members : List Member) : List String :=
  distinct (members.map (identity pool))

/-- The versions of one identifier, in the order of the list. -/
def versionsOf (pool : Pool) (members : List Member) (id : String) : List Member :=
  members.filter fun member => identity pool member == id

@[simp]
theorem mem_identities {pool : Pool} {members : List Member} {id : String} :
    id ∈ identities pool members ↔ ∃ member ∈ members, identity pool member = id := by
  simp [identities, mem_distinct]

theorem nodup_identities (pool : Pool) (members : List Member) :
    (identities pool members).Nodup :=
  nodup_distinct _

@[simp]
theorem mem_versionsOf {pool : Pool} {members : List Member} {id : String}
    {member : Member} :
    member ∈ versionsOf pool members id ↔ member ∈ members ∧ identity pool member = id := by
  simp [versionsOf]

theorem versionsOf_append (pool : Pool) (first second : List Member) (id : String) :
    versionsOf pool (first ++ second) id =
      versionsOf pool first id ++ versionsOf pool second id :=
  List.filter_append _ _

theorem versionsOf_eq_nil {pool : Pool} {members : List Member} {id : String}
    (hid : id ∉ identities pool members) : versionsOf pool members id = [] := by
  rw [List.eq_nil_iff_forall_not_mem]
  intro member hmember
  exact hid (mem_identities.mpr ⟨member, mem_versionsOf.mp hmember⟩)

theorem identities_append_singleton (pool : Pool) (members : List Member) (last : Member) :
    identities pool (members ++ [last]) =
      if identity pool last ∈ identities pool members then identities pool members
      else identities pool members ++ [identity pool last] := by
  simp only [identities, List.map_append, List.map_cons, List.map_nil,
    distinct_append_singleton, mem_distinct]

/-- Every identifier with its versions. -/
theorem byId_eq (pool : Pool) (members : List Member) :
    byId pool members =
      (identities pool members).map fun id => (id, versionsOf pool members id) := by
  induction members using List.reverseRecOn with
  | nil => rfl
  | append_singleton members last ih =>
    have hstep : byId pool (members ++ [last]) =
        (byId pool members).put (identity pool last)
          (((byId pool members).get? (identity pool last)).getD [] ++ [last]) := by
      simp only [byId, List.foldl_append, List.foldl_cons, List.foldl_nil]
      rfl
    have hold : ((byId pool members).get? (identity pool last)).getD [] =
        versionsOf pool members (identity pool last) := by
      rw [ih, Entries.get?_map]
      split
      · rfl
      · next hnew => exact (versionsOf_eq_nil hnew).symm
    have hversions : ∀ id, versionsOf pool (members ++ [last]) id =
        if id = identity pool last then versionsOf pool members (identity pool last) ++ [last]
        else versionsOf pool members id := by
      intro id
      rw [versionsOf_append]
      by_cases hid : id = identity pool last
      · simp [hid, versionsOf]
      · simp [hid, versionsOf, Ne.symm hid]
    rw [hstep, hold, ih, Entries.put_map (nodup_identities _ _), identities_append_singleton]
    by_cases hmem : identity pool last ∈ identities pool members
    · rw [if_pos hmem, if_pos hmem]
      apply List.map_congr_left
      intro id hid
      rw [hversions]
      by_cases hlast : id = identity pool last <;> simp [hlast]
    · rw [if_neg hmem, if_neg hmem, List.map_append, List.map_singleton, hversions,
        if_pos rfl]
      congr 1
      apply List.map_congr_left
      intro id hid
      have hne : id ≠ identity pool last := by
        rintro rfl
        exact hmem hid
      rw [hversions, if_neg hne]

/-! ## Merged records -/

/-- The record the versions of one identifier are merged into, with the mod of
the creator. -/
def mergedVersion? (pool : Pool) (versions : List Member) : Option (String × Record) :=
  (creator? pool versions).map fun creator =>
    (creator.mod, mergeVersions pool creator versions)

theorem merged_foldl_addIdentity (pool : Pool) (outcome : Outcome)
    (grouped : Entries String (List Member)) :
    (grouped.foldl (fun outcome (id, versions) => addIdentity pool outcome id versions)
        outcome).merged =
      outcome.merged ++ grouped.filterMap fun (_, versions) => mergedVersion? pool versions := by
  induction grouped generalizing outcome with
  | nil => simp
  | cons entry rest ih =>
    obtain ⟨id, versions⟩ := entry
    rw [List.foldl_cons, ih]
    cases hcreator : creator? pool versions with
    | none => simp [addIdentity, mergedVersion?, hcreator]
    | some creator => simp [addIdentity, mergedVersion?, hcreator]

theorem merged_mergeAll (pool : Pool) (members : List Member) :
    (mergeAll pool members).merged =
      (identities pool members).filterMap fun id =>
        mergedVersion? pool (versionsOf pool members id) := by
  rw [mergeAll, merged_foldl_addIdentity, byId_eq, List.filterMap_map]
  rfl

theorem id_mergeVersions (pool : Pool) (creator : Member) (versions : List Member) :
    (mergeVersions pool creator versions).id = identity pool creator := by
  rw [mergeVersions, ← List.foldl_map (f := fun version : Member => pool.get version.record)]
  generalize List.map _ _ = changes
  generalize hrecord : pool.get creator.record = record
  have hid : record.id = identity pool creator := by
    rw [← hrecord]
    rfl
  clear hrecord
  induction changes generalizing record with
  | nil => exact hid
  | cons change rest ih => exact ih _ hid

theorem creator?_mem {pool : Pool} {versions : List Member} {creator : Member}
    (hcreator : creator? pool versions = some creator) : creator ∈ versions :=
  List.mem_of_find?_eq_some hcreator

theorem id_of_mergedVersion? {pool : Pool} {members : List Member} {id : String}
    {entry : String × Record}
    (hentry : mergedVersion? pool (versionsOf pool members id) = some entry) :
    entry.2.id = id := by
  simp only [mergedVersion?, Option.map_eq_some_iff] at hentry
  obtain ⟨creator, hcreator, rfl⟩ := hentry
  rw [id_mergeVersions]
  exact (mem_versionsOf.mp (creator?_mem hcreator)).2

/-- The merged records with an identifier, with the mods of their creators. -/
def Outcome.entriesOf (outcome : Outcome) (id : String) : List (String × Record) :=
  outcome.merged.filter fun entry => entry.2.id == id

/-- The keys of a table of at most one entry a key are those that have an entry. -/
theorem map_filterMap_eq_filter {Key Entry : Type} {keyOf : Entry → Key}
    {value? : Key → Option Entry}
    (hkey : ∀ key entry, value? key = some entry → keyOf entry = key) (keys : List Key) :
    (keys.filterMap value?).map keyOf = keys.filter fun key => (value? key).isSome := by
  induction keys with
  | nil => rfl
  | cons here rest ih =>
    cases hentry : value? here with
    | none => simpa [hentry] using ih
    | some entry => simpa [hentry, hkey here entry hentry] using ih

theorem isSome_mergedVersion? (pool : Pool) (versions : List Member) :
    (mergedVersion? pool versions).isSome =
      versions.any fun version => (pool.get version.record).isNew := by
  rw [mergedVersion?, Option.isSome_map, creator?, List.isSome_find?]

/-- The identifiers that some version creates are those of the merged records. -/
theorem ids_merged_mergeAll (pool : Pool) (members : List Member) :
    ((mergeAll pool members).merged.map fun entry => entry.2.id) =
      (identities pool members).filter fun id =>
        (versionsOf pool members id).any fun version => (pool.get version.record).isNew := by
  rw [merged_mergeAll, map_filterMap_eq_filter fun _ _ hentry => id_of_mergedVersion? hentry]
  simp only [isSome_mergedVersion?]

/-- No two merged records have one identifier. -/
theorem nodup_merged_mergeAll (pool : Pool) (members : List Member) :
    ((mergeAll pool members).merged.map fun entry => entry.2.id).Nodup := by
  rw [ids_merged_mergeAll]
  exact (nodup_identities pool members).filter _

/-- A table of at most one entry a key holds one at most under each key. -/
theorem filter_filterMap_of_nodup {Key Entry : Type} [BEq Key] [LawfulBEq Key]
    {keyOf : Entry → Key} {value? : Key → Option Entry}
    (hkey : ∀ key entry, value? key = some entry → keyOf entry = key)
    {keys : List Key} (hnodup : keys.Nodup) (key : Key) :
    (keys.filterMap value?).filter (fun entry => keyOf entry == key) =
      if key ∈ keys then (value? key).toList else [] := by
  induction keys with
  | nil => rfl
  | cons here rest ih =>
    obtain ⟨hnotin, hrest⟩ := List.nodup_cons.mp hnodup
    by_cases hhere : key = here
    · subst hhere
      cases hentry : value? key with
      | none => simp [hentry, ih hrest, hnotin]
      | some entry => simp [hentry, ih hrest, hnotin, hkey key entry hentry]
    · cases hentry : value? here with
      | none => simp [hentry, ih hrest, hhere]
      | some entry =>
        simp [hentry, ih hrest, hhere, hkey here entry hentry,
          Ne.symm hhere]

/-- Merging gives one record for each identifier that some version creates. -/
theorem entriesOf_mergeAll (pool : Pool) (members : List Member) (id : String) :
    (mergeAll pool members).entriesOf id =
      (mergedVersion? pool (versionsOf pool members id)).toList := by
  have hfilter := filter_filterMap_of_nodup
    (fun (key : String) (entry : String × Record)
      (hentry : mergedVersion? pool (versionsOf pool members key) = some entry) =>
        id_of_mergedVersion? hentry)
    (nodup_identities pool members) id
  rw [Outcome.entriesOf, merged_mergeAll, hfilter]
  split
  · rfl
  · next hnotin => simp [versionsOf_eq_nil hnotin, mergedVersion?, creator?]

/-! ## Placing merged records -/

theorem records_place (outcome : Outcome) (pool : Pool) :
    (outcome.place pool).2.records = (pool.addAll (outcome.merged.map Prod.snd)).2 := by
  simp only [Outcome.place, Group.records, List.map_zipWith]
  apply List.ext_getElem
  · simp
  · intro index hleft hright
    simp

/-- The members of the group are the merged records with the mods of their
creators. -/
theorem members_place (outcome : Outcome) (pool : Pool) :
    (outcome.place pool).2.members.map
        (fun member => (member.mod, (outcome.place pool).1.get member.record)) =
      outcome.merged := by
  have hget := pool.get_addAll (outcome.merged.map Prod.snd)
  simp only [Outcome.place, List.map_zipWith]
  generalize pool.addAll (outcome.merged.map Prod.snd) = placed at hget
  apply List.ext_getElem
  · have hlength := congrArg List.length hget
    simp only [List.length_map] at hlength
    simp [hlength]
  · intro index hleft hright
    have hindex : index < placed.2.length := by
      simp only [List.length_zipWith] at hleft
      omega
    have hrecord : placed.1.get placed.2[index] = outcome.merged[index].2 := by
      have hgets := List.getElem_of_eq hget (by simpa using hindex)
      simpa using hgets
    simp [hrecord]

/-- Merged records get new places; all other records stay as they are. -/
theorem keptIn_place (outcome : Outcome) (pool : Pool) :
    pool.KeptIn (outcome.place pool).1 :=
  pool.keptIn_addAll _

theorem fresh_place (outcome : Outcome) (pool : Pool) :
    ∀ view ∈ (outcome.place pool).2.records,
      ¬ pool.Holds view ∧ (outcome.place pool).1.Holds view := by
  intro view hview
  rw [records_place] at hview
  exact Pool.mem_addAll hview

end Merge

end Patchwork
