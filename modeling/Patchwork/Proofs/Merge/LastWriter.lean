import Mathlib.Data.List.Nodup
import Patchwork.Proofs.Merge.Identities
import Patchwork.Proofs.Record.Content

/-!
# The creator first, the last writer wins

A merged record starts as its creator, wherever the creator stands among the
versions, and every other version is applied to it in order.  So each field,
each link and the name are what the last version that has them says, where the
creator counts as the first version.
-/

namespace Patchwork

namespace Merge

/-- The creator, then every other version in the order of the list. -/
def orderedVersions (pool : Pool) (creator : Member) (versions : List Member) :
    List Record :=
  pool.get creator.record ::
    (versions.filter fun version => version.record ≠ creator.record).map fun version =>
      pool.get version.record

/-- Where no record stands twice in the list, the ordered versions are the list
with the creator moved to its front. -/
theorem orderedVersions_of_nodup (pool : Pool) (creator : Member) (before after : List Member)
    (hnodup : ((before ++ creator :: after).map Member.record).Nodup) :
    orderedVersions pool creator (before ++ creator :: after) =
      (creator :: (before ++ after)).map fun version => pool.get version.record := by
  rw [List.map_append, List.map_cons, List.nodup_middle, ← List.map_append] at hnodup
  have hother : ∀ version ∈ before ++ after, version.record ≠ creator.record := by
    intro version hversion heq
    apply (List.nodup_cons.mp hnodup).1
    rw [← heq]
    exact List.mem_map_of_mem hversion
  have hbefore : before.filter (fun version => version.record ≠ creator.record) = before := by
    rw [List.filter_eq_self]
    intro version hversion
    simpa using hother version (List.mem_append_left _ hversion)
  have hafter : after.filter (fun version => version.record ≠ creator.record) = after := by
    rw [List.filter_eq_self]
    intro version hversion
    simpa using hother version (List.mem_append_right _ hversion)
  rw [orderedVersions, List.filter_append, List.filter_cons_of_neg (by simp), hbefore, hafter,
    List.map_cons]

theorem mergeVersions_eq (pool : Pool) (creator : Member) (versions : List Member) :
    mergeVersions pool creator versions =
      ((orderedVersions pool creator versions).tail).foldl Record.applyChanges
        (pool.get creator.record) := by
  simp only [mergeVersions, orderedVersions, List.tail_cons, List.foldl_map]

/-- Whatever versions override for themselves comes from the last ordered
version that has it. -/
theorem read_mergeVersions {Value : Type} (read : Record → Option Value)
    (hread : ∀ record version : Record, version.Tidy →
      read (record.applyChanges version) = (read version).or (read record))
    {pool : Pool} (creator : Member) {versions : List Member}
    (htidy : ∀ version ∈ versions, (pool.get version.record).Tidy) :
    read (mergeVersions pool creator versions) =
      lastSome? read (orderedVersions pool creator versions) := by
  rw [mergeVersions_eq, orderedVersions, List.tail_cons]
  apply Record.read_foldl_applyChanges read hread
  intro record hrecord
  obtain ⟨version, hversion, rfl⟩ := List.mem_map.mp hrecord
  exact htidy version (List.mem_filter.mp hversion).1

theorem keeps_mergeVersions {Value : Type} (read : Record → Value)
    (hread : ∀ record version : Record, read (record.applyChanges version) = read record)
    (pool : Pool) (creator : Member) (versions : List Member) :
    read (mergeVersions pool creator versions) = read (pool.get creator.record) := by
  rw [mergeVersions_eq]
  exact Record.foldl_applyChanges_keeps read hread _ _

/-- What a merged record has to be: the creator's identity, and everything else
from the last version that has it. -/
structure LastWriterWins (creator : Record) (ordered : List Record) (merged : Record) :
    Prop where
  id : merged.id = creator.id
  kind : merged.kind = creator.kind
  isNew : merged.isNew = creator.isNew
  name : merged.name = (lastSome? Record.givenName? ordered).getD ""
  fields : ∀ key : Plain, key.IsKey →
    merged.fields.get? key = lastSome? (fun version => version.fields.get? key) ordered
  links : ∀ category target, merged.payload? category target =
    lastSome? (fun version => version.payload? category target) ordered

theorem lastWriterWins_mergeVersions {pool : Pool} (creator : Member)
    {versions : List Member} (htidy : ∀ version ∈ versions, (pool.get version.record).Tidy) :
    LastWriterWins (pool.get creator.record) (orderedVersions pool creator versions)
      (mergeVersions pool creator versions) where
  id := keeps_mergeVersions Record.id Record.id_applyChanges pool creator versions
  kind := keeps_mergeVersions Record.kind Record.kind_applyChanges pool creator versions
  isNew := keeps_mergeVersions Record.isNew Record.isNew_applyChanges pool creator versions
  name := by
    rw [← read_mergeVersions Record.givenName?
      (fun record version _ => Record.givenName?_applyChanges record version) creator htidy,
      Record.givenName?_getD]
  fields key hkey :=
    read_mergeVersions (fun version => version.fields.get? key)
      (fun record _ => Record.get?_fields_applyChanges hkey record) creator htidy
  links category target :=
    read_mergeVersions (fun version => version.payload? category target)
      (fun record _ => Record.payload?_applyChanges category target record) creator htidy

/-- An identifier that some version creates is merged into one record, under the
mod of the first version flagged new; its content comes from the last writers,
where that version counts as the first writer. -/
theorem mergeAll_lastWriterWins {pool : Pool} {members : List Member}
    (htidy : ∀ member ∈ members, (pool.get member.record).Tidy) {id : String}
    (hcreated : ∃ member ∈ members,
      (pool.get member.record).id = id ∧ (pool.get member.record).isNew = true) :
    ∃ creator merged,
      (versionsOf pool members id).find? (fun version => (pool.get version.record).isNew) =
        some creator ∧
      (mergeAll pool members).entriesOf id = [(creator.mod, merged)] ∧
      LastWriterWins (pool.get creator.record)
        (orderedVersions pool creator (versionsOf pool members id)) merged := by
  obtain ⟨member, hmember, hid, hnew⟩ := hcreated
  have hversion : member ∈ versionsOf pool members id := mem_versionsOf.mpr ⟨hmember, hid⟩
  have hfound : (creator? pool (versionsOf pool members id)).isSome = true := by
    rw [creator?, List.find?_isSome]
    exact ⟨member, hversion, hnew⟩
  obtain ⟨creator, hcreator⟩ := Option.isSome_iff_exists.mp hfound
  refine ⟨creator, mergeVersions pool creator (versionsOf pool members id), hcreator, ?_, ?_⟩
  · rw [entriesOf_mergeAll, mergedVersion?, hcreator]
    rfl
  · apply lastWriterWins_mergeVersions
    intro version hmem
    exact htidy version (mem_versionsOf.mp hmem).1

/-- Three versions of a sword: an override that is loaded before both versions
that introduce it. -/
def swordPool : Pool where
  records := #[
    { id := "7", kind := "WEAPON", name := "Blade", fields := [(.str "damage", .int 5)] },
    { id := "7", kind := "WEAPON", name := "Sword", isNew := true,
      fields := [(.str "damage", .int 1), (.str "weight", .int 2)] },
    { id := "7", kind := "TOOL", isNew := true, fields := [(.str "weight", .int 3)],
      links := [("part", [("8", [4])])] }]

/-- The three versions in load order. -/
def swordVersions : List Member := [⟨"sharper", ⟨0⟩⟩, ⟨"base", ⟨1⟩⟩, ⟨"again", ⟨2⟩⟩]

theorem mergeAll_swordVersions :
    ∃ merged, (mergeAll swordPool swordVersions).entriesOf "7" = [("base", merged)] ∧
      merged.kind = "WEAPON" ∧ merged.name = "Blade" ∧
      merged.fields.get? (.str "damage") = some (.int 5) ∧
      merged.fields.get? (.str "weight") = some (.int 3) ∧
      merged.payload? "part" "8" = some [4] := by
  have htidy : ∀ member ∈ swordVersions, (swordPool.get member.record).Tidy := by decide
  have hcreated : ∃ member ∈ swordVersions, (swordPool.get member.record).id = "7" ∧
      (swordPool.get member.record).isNew = true := by decide
  obtain ⟨creator, merged, hcreator, hentries, hwins⟩ :=
    mergeAll_lastWriterWins htidy hcreated
  have hfirst : some (⟨"base", ⟨1⟩⟩ : Member) = some creator := hcreator
  cases hfirst
  exact ⟨merged, hentries, hwins.kind, hwins.name,
    hwins.fields _ (Plain.isKey_str "damage"), hwins.fields _ (Plain.isKey_str "weight"),
    hwins.links "part" "8"⟩

end Merge

end Patchwork
