import Patchwork.Proofs.Merge.Identities
import Patchwork.Proofs.Relocation.Store

/-!
# Merging after a relocation

The loaded mods select, collect and merge corresponding records from
corresponding pools, and the merged records are put at corresponding places.
-/

namespace Patchwork

variable {relocation : Relocation} {left right : Pool}

/-- The member with its record at its other place. -/
def Member.relocate (relocation : Relocation) (member : Member) : Member :=
  ⟨member.mod, relocation.ref member.record⟩

/-- The loaded mods with their records at other places. -/
def Repository.relocate (relocation : Relocation) (repository : Repository) : Repository :=
  ⟨repository.mods.convert id (Mod.relocate relocation)⟩

/-- The outcome with other marks in the merged records. -/
def Merge.Outcome.remark (mark : Nat → Nat) (outcome : Merge.Outcome) : Merge.Outcome :=
  { outcome with merged := outcome.merged.map (Prod.map id (Record.remark mark)) }

/-! ## Merging -/

namespace Merge

theorem byId_relocate (hpools : relocation.Pools left right) (members : List Member) :
    byId right (members.map (Member.relocate relocation)) =
      (byId left members).convert id (List.map (Member.relocate relocation)) := by
  suffices hgrouped : ∀ grouped : Entries String (List Member),
      (members.map (Member.relocate relocation)).foldl (fun grouped member =>
          let id := (right.get member.record).id
          grouped.put id ((grouped.get? id).getD [] ++ [member]))
        (grouped.convert id (List.map (Member.relocate relocation))) =
      (members.foldl (fun grouped member =>
          let id := (left.get member.record).id
          grouped.put id ((grouped.get? id).getD [] ++ [member])) grouped).convert id
        (List.map (Member.relocate relocation)) from hgrouped []
  induction members with
  | nil => exact fun _ => rfl
  | cons member rest ih =>
    intro grouped
    rw [List.map_cons, List.foldl_cons, List.foldl_cons, ← ih]
    congr 1
    have hid : (right.get (member.relocate relocation).record).id =
        (left.get member.record).id := by
      rw [Member.relocate, hpools.get, Record.id_remark]
    dsimp only
    rw [hid, Entries.get?_convert_id, ← Entries.put_convert_id]
    congr 1
    cases grouped.get? (left.get member.record).id with
    | none => rfl
    | some versions => simp

theorem creator?_relocate (hpools : relocation.Pools left right) (versions : List Member) :
    creator? right (versions.map (Member.relocate relocation)) =
      (creator? left versions).map (Member.relocate relocation) := by
  rw [creator?, List.find?_map, creator?]
  congr 2
  funext version
  simp only [Function.comp_apply, Member.relocate, hpools.get, Record.isNew_remark]

theorem mergeVersions_relocate (hpools : relocation.Pools left right) (creator : Member)
    (versions : List Member) :
    mergeVersions right (creator.relocate relocation)
        (versions.map (Member.relocate relocation)) =
      (mergeVersions left creator versions).remark relocation.mark := by
  have hothers : (versions.map (Member.relocate relocation)).filter
        (fun version => version.record ≠ (creator.relocate relocation).record) =
      (versions.filter fun version => version.record ≠ creator.record).map
        (Member.relocate relocation) := by
    rw [List.filter_map]
    congr 2
    funext version
    simp only [Function.comp_apply, Member.relocate, ne_eq, relocation.ref_injective.eq_iff]
  rw [mergeVersions, hothers, mergeVersions]
  have hcreator : right.get (creator.relocate relocation).record =
      (left.get creator.record).remark relocation.mark := hpools.get creator.record
  rw [hcreator]
  generalize versions.filter (fun version => version.record ≠ creator.record) = others
  generalize left.get creator.record = merged
  induction others generalizing merged with
  | nil => rfl
  | cons version rest ih =>
    rw [List.map_cons, List.foldl_cons, List.foldl_cons, Member.relocate, hpools.get,
      Record.applyChanges_remark relocation.mark_injective, ih]

theorem addIdentity_relocate (hpools : relocation.Pools left right) (outcome : Outcome)
    (id : String) (versions : List Member) :
    addIdentity right (outcome.remark relocation.mark) id
        (versions.map (Member.relocate relocation)) =
      (addIdentity left outcome id versions).remark relocation.mark := by
  simp only [addIdentity, creator?_relocate hpools]
  cases creator? left versions with
  | none =>
    simp only [Option.map_none, Outcome.remark, orphanNotice, List.map_map]
    rfl
  | some creator =>
    simp only [Option.map_some, Outcome.remark, mergeVersions_relocate hpools, List.map_append]
    rfl

theorem mergeAll_relocate (hpools : relocation.Pools left right) (members : List Member) :
    mergeAll right (members.map (Member.relocate relocation)) =
      (mergeAll left members).remark relocation.mark := by
  rw [mergeAll, byId_relocate hpools, mergeAll]
  suffices hfold : ∀ (grouped : Entries String (List Member)) (outcome : Outcome),
      (grouped.convert id (List.map (Member.relocate relocation))).foldl
          (fun outcome entry => addIdentity right outcome entry.1 entry.2)
          (outcome.remark relocation.mark) =
        (grouped.foldl (fun outcome entry => addIdentity left outcome entry.1 entry.2)
          outcome).remark relocation.mark from hfold _ {}
  intro grouped
  induction grouped with
  | nil => exact fun _ => rfl
  | cons entry rest ih =>
    intro outcome
    obtain ⟨id, versions⟩ := entry
    have hrest := ih (addIdentity left outcome id versions)
    rw [← addIdentity_relocate hpools outcome id versions] at hrest
    exact hrest

theorem place_relocate (hpools : relocation.Pools left right) (outcome : Outcome) :
    relocation.Pools (outcome.place left).1
        ((outcome.remark relocation.mark).place right).1 ∧
      relocation.Groups (outcome.place left).2
        ((outcome.remark relocation.mark).place right).2 := by
  obtain ⟨hfilled, hrefs⟩ := hpools.addAll (outcome.merged.map Prod.snd)
  have hrecords : (outcome.remark relocation.mark).merged.map Prod.snd =
      (outcome.merged.map Prod.snd).map (Record.remark relocation.mark) := by
    simp [Outcome.remark, Function.comp_def]
  have hmods : (outcome.remark relocation.mark).merged.map Prod.fst =
      outcome.merged.map Prod.fst := by
    simp [Outcome.remark, Function.comp_def]
  obtain ⟨hplaces, hfree⟩ := forall₂_eq_map_iff.mp hrefs
  simp only [Outcome.place, hrecords, hmods]
  refine ⟨hfilled, ?_, ?_⟩
  · rw [hplaces]
    simp only [Group.relocate, List.zipWith_map_right, List.map_zipWith]
  · intro member hmember hloaded
    exact (fresh_place outcome left member.record (List.mem_map_of_mem hmember)).1
      (hpools.kept member.record hloaded).1

end Merge

/-! ## The loaded mods -/

namespace Repository

@[simp]
theorem list_relocate (repository : Repository) :
    (repository.relocate relocation).list = repository.list.map (Mod.relocate relocation) := by
  simp [list, relocate]

@[simp]
theorem names_relocate (repository : Repository) :
    (repository.relocate relocation).names = repository.names := by
  simp [names, relocate]

theorem select_relocate (repository : Repository) (selector : String) :
    (repository.relocate relocation).select selector =
      ((repository.select selector).1.map (Mod.relocate relocation),
        (repository.select selector).2) := by
  have hwanted : ((repository.relocate relocation).mods.filter fun entry =>
        (selectedNames selector).contains entry.1).map Prod.snd =
      ((repository.mods.filter fun entry =>
        (selectedNames selector).contains entry.1).map Prod.snd).map
          (Mod.relocate relocation) := by
    simp only [relocate, Entries.convert, List.filter_map, List.map_map]
    rfl
  simp only [select, hwanted, names_relocate, list_relocate]
  split <;> rfl

theorem collect_relocate (hpools : relocation.Pools left right) (kind : String)
    (mods : List Mod) :
    collect right kind (mods.map (Mod.relocate relocation)) =
      (collect left kind mods).map (Member.relocate relocation) := by
  have hkind : ∀ mod : Mod, (mod.relocate relocation).ofKind right kind =
      (mod.ofKind left kind).map relocation.ref := by
    intro mod
    rw [Mod.ofKind, Mod.records_relocate, List.filter_map, Mod.ofKind]
    congr 2
    funext ref
    simp only [Function.comp_apply, hpools.get, Record.kind_remark]
  simp only [collect, List.flatMap_map, List.map_flatMap, hkind, Mod.name_relocate,
    List.map_map]
  rfl

theorem versions_relocate (hpools : relocation.Pools left right) (repository : Repository)
    (wanted : String) :
    (repository.relocate relocation).versions right wanted =
      (repository.versions left wanted).map (Prod.map id relocation.ref) := by
  rw [versions, list_relocate, List.filterMap_map, versions, List.map_filterMap]
  congr 1
  funext mod
  simp only [Function.comp_apply, Mod.find?_relocate hpools, Option.map_map]
  rfl

end Repository

end Patchwork
