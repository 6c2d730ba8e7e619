import Patchwork.Proofs.Merge.LoadedLast

/-!
# An account of the identities

Merging loses no identifier and makes up none: each one in the list is that of one merged
record or is reported once as an orphan.  What becomes of it is settled by its own versions
alone, so a merge of a longer or a shorter list gives the same for it.
-/

namespace Patchwork

/-- Items are listed by where each came first. -/
theorem pairwise_idxOf_distinct {Item : Type} [BEq Item] [LawfulBEq Item] (items : List Item) :
    (distinct items).Pairwise fun earlier later => items.idxOf earlier < items.idxOf later := by
  induction items with
  | nil => exact List.Pairwise.nil
  | cons first rest ih =>
    have hother : ∀ item ∈ (distinct rest).filter fun other => !(other == first), first ≠ item := by
      rintro item hitem rfl
      simpa using (List.mem_filter.mp hitem).2
    refine List.pairwise_cons.mpr ⟨fun item hitem => ?_, ?_⟩
    · rw [List.idxOf_cons_self, List.idxOf_cons_ne _ (hother item hitem)]
      exact Nat.succ_pos _
    · refine (ih.filter _).imp_of_mem fun {earlier later} hearlier hlater hless => ?_
      rw [List.idxOf_cons_ne _ (hother earlier hearlier),
        List.idxOf_cons_ne _ (hother later hlater)]
      exact Nat.succ_lt_succ hless

namespace Merge

theorem orphans_foldl_addIdentity (pool : Pool) (outcome : Outcome)
    (grouped : Entries String (List Member)) :
    (grouped.foldl (fun outcome (id, versions) => addIdentity pool outcome id versions)
        outcome).orphans =
      outcome.orphans ++
        (grouped.filter fun entry => (creator? pool entry.2).isNone).map Prod.fst := by
  induction grouped generalizing outcome with
  | nil => simp
  | cons entry rest ih =>
    obtain ⟨id, versions⟩ := entry
    rw [List.foldl_cons, ih]
    cases hcreator : creator? pool versions with
    | none => simp [addIdentity, hcreator]
    | some creator => simp [addIdentity, hcreator]

/-- The identifiers that no version creates are the orphans. -/
theorem orphans_mergeAll (pool : Pool) (members : List Member) :
    (mergeAll pool members).orphans =
      (identities pool members).filter fun id =>
        !(versionsOf pool members id).any fun version => (pool.get version.record).isNew := by
  rw [mergeAll, orphans_foldl_addIdentity, byId_eq, List.filter_map, List.map_map]
  simp only [← isSome_mergedVersion?, mergedVersion?, Option.isSome_map]
  have hfirst : (Prod.fst ∘ fun id => (id, versionsOf pool members id)) = id := rfl
  rw [hfirst, List.map_id]
  refine List.filter_congr fun id _ => ?_
  simp

/-- What a merge does with the identifiers in a list. -/
structure Accounts (pool : Pool) (members : List Member) (outcome : Outcome) : Prop where
  /-- An identifier in the list is that of one merged record or is one orphan, and no
  other is. -/
  once : ∀ id, ((outcome.merged.map fun entry => entry.2.id) ++ outcome.orphans).count id =
    if id ∈ members.map (identity pool) then 1 else 0
  created : ∀ id, id ∈ (outcome.merged.map fun entry => entry.2.id) ↔
    ∃ member ∈ members, (pool.get member.record).id = id ∧
      (pool.get member.record).isNew = true
  mergedInOrder : (outcome.merged.map fun entry => entry.2.id).Pairwise fun earlier later =>
    (members.map (identity pool)).idxOf earlier < (members.map (identity pool)).idxOf later
  orphansInOrder : outcome.orphans.Pairwise fun earlier later =>
    (members.map (identity pool)).idxOf earlier < (members.map (identity pool)).idxOf later
  /-- Each merged record is under the mod of the first version that is new. -/
  creator : ∀ entry ∈ outcome.merged,
    ((versionsOf pool members entry.2.id).find? fun version =>
      (pool.get version.record).isNew).map Member.mod = some entry.1
  placed : (outcome.place pool).2.members.map
      (fun member => (member.mod, (outcome.place pool).1.get member.record)) = outcome.merged
  /-- A merge of another list with the same versions of an identifier gives the same for
  it. -/
  apart : ∀ (later : Pool) (others : List Member) (id : String),
    versionsOf later others id = versionsOf pool members id →
    (∀ version ∈ versionsOf pool members id, later.get version.record = pool.get version.record) →
    (mergeAll later others).entriesOf id = outcome.entriesOf id ∧
      (id ∈ (mergeAll later others).orphans ↔ id ∈ outcome.orphans)

theorem mem_orphans_mergeAll {pool : Pool} {members : List Member} {id : String} :
    id ∈ (mergeAll pool members).orphans ↔ versionsOf pool members id ≠ [] ∧
      ∀ version ∈ versionsOf pool members id, (pool.get version.record).isNew = false := by
  rw [orphans_mergeAll, List.mem_filter]
  have hmem : id ∈ identities pool members ↔ versionsOf pool members id ≠ [] := by
    rw [Ne, List.eq_nil_iff_forall_not_mem]
    simp
  rw [hmem]
  simp

/-- Every identifier is accounted for once, by the versions it has and nothing else. -/
theorem mergeAll_accounts (pool : Pool) (members : List Member) :
    Accounts pool members (mergeAll pool members) where
  once id := by
    rw [ids_merged_mergeAll, orphans_mergeAll, (List.filter_append_perm _ _).count_eq,
      (nodup_identities pool members).count, identities]
    simp only [mem_distinct]
  created id := by
    rw [ids_merged_mergeAll, List.mem_filter, List.any_eq_true, mem_identities]
    simp only [mem_versionsOf, identity]
    constructor
    · rintro ⟨-, member, ⟨hmember, hid⟩, hnew⟩
      exact ⟨member, hmember, hid, hnew⟩
    · rintro ⟨member, hmember, hid, hnew⟩
      exact ⟨⟨member, hmember, hid⟩, member, ⟨hmember, hid⟩, hnew⟩
  mergedInOrder := by
    rw [ids_merged_mergeAll]
    exact (pairwise_idxOf_distinct _).filter _
  orphansInOrder := by
    rw [orphans_mergeAll]
    exact (pairwise_idxOf_distinct _).filter _
  creator entry hentry := by
    rw [merged_mergeAll] at hentry
    obtain ⟨id, -, hversion⟩ := List.mem_filterMap.mp hentry
    rw [id_of_mergedVersion? hversion]
    obtain ⟨creator, hcreator, rfl⟩ := Option.map_eq_some_iff.mp hversion
    rw [creator?] at hcreator
    rw [hcreator]
    rfl
  placed := members_place _ _
  apart later others id hversions hsame := by
    refine ⟨?_, ?_⟩
    · rw [entriesOf_mergeAll, entriesOf_mergeAll, hversions, mergedVersion?_congr hsame]
    · rw [mem_orphans_mergeAll, mem_orphans_mergeAll, hversions]
      refine and_congr_right fun _ => forall₂_congr fun version hversion => ?_
      rw [hsame version hversion]

end Merge

end Patchwork
