import Patchwork.Proofs.Merge.LastWriter
import Patchwork.Proofs.Provenance.Groups
import Patchwork.Proofs.Runs.LoadedMods

/-!
# Where the records of groups come from

A group is sound if each of its records comes from the mod it is listed under: it was
merged from versions of which that mod has the one flagged new, or the mod being
patched has cloned it.  Sound groups stay sound as a run goes on, and the groups that
queries and clones give are sound.
-/

namespace Patchwork

/-! ## Worlds that have gone on -/

/-- Every record of the first pool is in the second one with the identifier, the mod and
the standing it had. -/
structure Pool.Retains (pool later : Pool) : Prop where
  holds : ∀ ref, pool.Holds ref → later.Holds ref
  id : ∀ ref, pool.Holds ref → (later.get ref).id = (pool.get ref).id
  mod : ∀ ref, pool.Holds ref → (later.get ref).mod = (pool.get ref).mod
  isNew : ∀ ref, pool.Holds ref → (later.get ref).isNew = (pool.get ref).isNew

namespace Pool

theorem KeptIn.retains {pool later : Pool} (hkept : pool.KeptIn later) : pool.Retains later where
  holds ref hheld := (hkept ref hheld).1
  id ref hheld := by rw [(hkept ref hheld).2]
  mod ref hheld := by rw [(hkept ref hheld).2]
  isNew ref hheld := by rw [(hkept ref hheld).2]

theorem Retains.refl (pool : Pool) : pool.Retains pool :=
  (KeptIn.refl pool).retains

theorem Retains.trans {first second third : Pool} (hfirst : first.Retains second)
    (hsecond : second.Retains third) : first.Retains third where
  holds ref hheld := hsecond.holds ref (hfirst.holds ref hheld)
  id ref hheld := (hsecond.id ref (hfirst.holds ref hheld)).trans (hfirst.id ref hheld)
  mod ref hheld := (hsecond.mod ref (hfirst.holds ref hheld)).trans (hfirst.mod ref hheld)
  isNew ref hheld := (hsecond.isNew ref (hfirst.holds ref hheld)).trans (hfirst.isNew ref hheld)

end Pool

/-- A change to a record that leaves the identifier, the mod and the standing. -/
structure Record.Retained (edit : Record → Record) : Prop where
  id : ∀ record, (edit record).id = record.id
  mod : ∀ record, (edit record).mod = record.mod
  isNew : ∀ record, (edit record).isNew = record.isNew

theorem Pool.retains_modify {edit : Record → Record} (hedit : Record.Retained edit) (pool : Pool)
    (ref : RecordRef) : pool.Retains (pool.modify ref edit) where
  holds _ hheld := Pool.holds_modify.mpr hheld
  id other _ := Pool.read_modify Record.id hedit.id pool ref other
  mod other _ := Pool.read_modify Record.mod hedit.mod pool ref other
  isNew other _ := Pool.read_modify Record.isNew hedit.isNew pool ref other

/-- A mod at a later point of a run: what was deleted is deleted, and every record is in
it still unless its identifier has been deleted. -/
structure Mod.Onward (pool : Pool) (mod later : Mod) : Prop where
  name : later.name = mod.name
  deleted : mod.deleted ⊆ later.deleted
  records : ∀ own ∈ mod.records, pool.Holds own →
    own ∈ later.records ∨ (pool.get own).id ∈ later.deleted

namespace Mod.Onward

theorem refl (pool : Pool) (mod : Mod) : mod.Onward pool mod :=
  ⟨rfl, List.Subset.refl _, fun _ hown _ => Or.inl hown⟩

theorem trans {pool later : Pool} {first second third : Mod} (hretains : pool.Retains later)
    (hfirst : first.Onward pool second) (hsecond : second.Onward later third) :
    first.Onward pool third where
  name := hsecond.name.trans hfirst.name
  deleted := List.Subset.trans hfirst.deleted hsecond.deleted
  records := by
    intro own hown hheld
    rcases hfirst.records own hown hheld with hkept | hdeleted
    · rw [← hretains.id own hheld]
      exact hsecond.records own hkept (hretains.holds own hheld)
    · exact Or.inr (hsecond.deleted hdeleted)

end Mod.Onward

/-- A world at a later point of a run. -/
structure World.Onward (before after : World) : Prop where
  retains : before.pool.Retains after.pool
  active : ∀ mod, before.active = some mod →
    ∃ later, after.active = some later ∧ mod.Onward before.pool later

namespace World.Onward

theorem refl (world : World) : world.Onward world :=
  ⟨Pool.Retains.refl _, fun mod hmod => ⟨mod, hmod, Mod.Onward.refl _ _⟩⟩

theorem trans {first second third : World} (hfirst : first.Onward second)
    (hsecond : second.Onward third) : first.Onward third where
  retains := hfirst.retains.trans hsecond.retains
  active := by
    intro mod hmod
    obtain ⟨later, hlater, honward⟩ := hfirst.active mod hmod
    obtain ⟨last, hlast, hrest⟩ := hsecond.active later hlater
    exact ⟨last, hlast, honward.trans hfirst.retains hrest⟩

theorem of_retains {before after : World} (hretains : before.pool.Retains after.pool)
    (hactive : after.active = before.active) : before.Onward after :=
  ⟨hretains, fun mod hmod => ⟨mod, hactive.trans hmod, Mod.Onward.refl _ _⟩⟩

end World.Onward

/-! ## Sound groups -/

/-- Loaded mods whose records are in the pool and carry the name of their mod. -/
structure Repository.Loaded (repository : Repository) (pool : Pool) : Prop where
  held : ∀ ref ∈ repository.places, pool.Holds ref
  named : ∀ mod ∈ repository.list, ∀ ref ∈ mod.records, (pool.get ref).mod = mod.name

theorem Repository.Loaded.mono {repository : Repository} {pool later : Pool}
    (hloaded : repository.Loaded pool) (hretains : pool.Retains later) :
    repository.Loaded later where
  held ref href := hretains.holds ref (hloaded.held ref href)
  named mod hmod ref href :=
    (hretains.mod ref (hloaded.held ref (Repository.mem_places.mpr ⟨mod, hmod, href⟩))).trans
      (hloaded.named mod hmod ref href)

/-- A mod that is made of records and then loaded puts its own name on them. -/
theorem Repository.Loaded.add_create {repository : Repository} {pool : Pool}
    (hloaded : repository.Loaded pool) (name : String) (records : List Record)
    (dependencies references : List Plain) :
    (repository.add (Mod.create pool name records dependencies references).2).Loaded
      (Mod.create pool name records dependencies references).1 := by
  let stamped := records.map fun record => { record with mod := name }
  have hkept : pool.Retains (pool.addAll stamped).1 := (pool.keptIn_addAll stamped).retains
  have hlist : ∀ mod ∈
      (repository.add (Mod.create pool name records dependencies references).2).list,
      mod ∈ repository.list ∨ mod.name = name ∧ mod.records = (pool.addAll stamped).2 := by
    intro mod hmod
    obtain ⟨entry, hentry, rfl⟩ := List.mem_map.mp hmod
    rcases Entries.mem_put hentry with hold | hnew
    · exact Or.inl (List.mem_map_of_mem hold)
    · rw [hnew]
      exact Or.inr ⟨rfl, rfl⟩
  have hlater := hloaded.mono hkept
  constructor
  · intro ref href
    obtain ⟨mod, hmod, hown⟩ := Repository.mem_places.mp href
    rcases hlist mod hmod with hold | ⟨-, hrecords⟩
    · exact hlater.held ref (Repository.mem_places.mpr ⟨mod, hold, hown⟩)
    · exact (Pool.mem_addAll (hrecords ▸ hown)).2
  · intro mod hmod ref href
    rcases hlist mod hmod with hold | ⟨hname, hrecords⟩
    · exact hlater.named mod hold ref href
    · have hget : (pool.addAll stamped).1.get ref ∈
          (pool.addAll stamped).2.map (pool.addAll stamped).1.get :=
        List.mem_map_of_mem (hrecords ▸ href)
      rw [pool.get_addAll] at hget
      obtain ⟨record, -, hrecord⟩ := List.mem_map.mp hget
      rw [hname]
      exact (congrArg Record.mod hrecord).symm

/-- A loaded mod of a name holds a version of an identifier that is flagged new. -/
def Repository.Introduces (repository : Repository) (pool : Pool) (name id : String) : Prop :=
  ∃ mod ∈ repository.list, mod.name = name ∧
    ∃ ref ∈ mod.records, pool.Holds ref ∧ (pool.get ref).id = id ∧ (pool.get ref).isNew = true

theorem Repository.Introduces.mono {repository : Repository} {pool later : Pool}
    {name id : String} (hintroduces : repository.Introduces pool name id)
    (hretains : pool.Retains later) : repository.Introduces later name id := by
  obtain ⟨mod, hmod, hname, ref, href, hheld, hid, hnew⟩ := hintroduces
  exact ⟨mod, hmod, hname, ref, href, hretains.holds ref hheld,
    (hretains.id ref hheld).trans hid, (hretains.isNew ref hheld).trans hnew⟩

/-- The mod being patched has made a record as a new one, and may have deleted it. -/
def World.Created (world : World) (ref : RecordRef) : Prop :=
  ∃ mod, world.active = some mod ∧
    (ref ∈ mod.records ∧ (world.pool.get ref).isNew = true ∨
      (world.pool.get ref).id ∈ mod.deleted)

theorem World.Created.mono {before after : World} {ref : RecordRef} (hcreated : before.Created ref)
    (hheld : before.pool.Holds ref) (honward : before.Onward after) : after.Created ref := by
  obtain ⟨mod, hmod, hcases⟩ := hcreated
  obtain ⟨later, hlater, hrecords⟩ := honward.active mod hmod
  refine ⟨later, hlater, ?_⟩
  rw [honward.retains.id ref hheld, honward.retains.isNew ref hheld]
  rcases hcases with ⟨hown, hnew⟩ | hdeleted
  · rcases hrecords.records ref hown hheld with hkept | hdeleted
    · exact Or.inl ⟨hkept, hnew⟩
    · exact Or.inr hdeleted
  · exact Or.inr (hrecords.deleted hdeleted)

variable {repository : Repository} {world before after : World}

/-- A record is flagged new and comes from the mod it is listed under, and from no place where
the loaded mods have theirs. -/
structure Member.Sound (repository : Repository) (world : World) (member : Member) : Prop where
  held : world.pool.Holds member.record
  mod : (world.pool.get member.record).mod = member.mod
  isNew : (world.pool.get member.record).isNew = true
  apart : member.record ∉ repository.places
  origin : repository.Introduces world.pool member.mod (world.pool.get member.record).id ∨
    world.Created member.record

theorem Member.Sound.mono {member : Member} (hsound : member.Sound repository before)
    (honward : before.Onward after) : member.Sound repository after where
  held := honward.retains.holds _ hsound.held
  mod := (honward.retains.mod _ hsound.held).trans hsound.mod
  isNew := (honward.retains.isNew _ hsound.held).trans hsound.isNew
  apart := hsound.apart
  origin := by
    rw [honward.retains.id _ hsound.held]
    exact hsound.origin.imp (·.mono honward.retains) (·.mono hsound.held honward)

/-- A group of sound members with different identifiers. -/
structure Group.Sound (repository : Repository) (world : World) (group : Group) : Prop where
  members : ∀ member ∈ group.members, member.Sound repository world
  distinct : (group.members.map fun member => (world.pool.get member.record).id).Nodup

namespace Group.Sound

theorem mono {group : Group} (hsound : group.Sound repository before)
    (honward : before.Onward after) : group.Sound repository after where
  members member hmember := (hsound.members member hmember).mono honward
  distinct := by
    have hids : group.members.map (fun member => (after.pool.get member.record).id) =
        group.members.map fun member => (before.pool.get member.record).id :=
      List.map_congr_left fun member hmember =>
        honward.retains.id _ (hsound.members member hmember).held
    rw [hids]
    exact hsound.distinct

theorem sublist {group : Group} (hsound : group.Sound repository world)
    {members : List Member} (hmembers : members.Sublist group.members) :
    Group.Sound repository world ⟨members⟩ where
  members member hmember := hsound.members member (hmembers.subset hmember)
  distinct := hsound.distinct.sublist (hmembers.map _)

theorem held {group : Group} (hsound : group.Sound repository world) {ref : RecordRef}
    (href : ref ∈ group.records) : world.pool.Holds ref := by
  obtain ⟨member, hmember, rfl⟩ := List.mem_map.mp href
  exact (hsound.members member hmember).held

end Group.Sound

/-- All of some groups are sound. -/
def AllSound (repository : Repository) (world : World) (groups : List Group) : Prop :=
  ∀ group ∈ groups, group.Sound repository world

namespace AllSound

variable {groups others : List Group}

theorem mono (hsound : AllSound repository before groups) (honward : before.Onward after) :
    AllSound repository after groups :=
  fun group hgroup => (hsound group hgroup).mono honward

theorem subset (hsound : AllSound repository world groups) (hsubset : others ⊆ groups) :
    AllSound repository world others :=
  fun group hgroup => hsound group (hsubset hgroup)

theorem nil (repository : Repository) (world : World) : AllSound repository world [] :=
  fun _ hgroup => nomatch hgroup

theorem singleton {group : Group} (hsound : group.Sound repository world) :
    AllSound repository world [group] := by
  intro other hother
  rw [List.mem_singleton.mp hother]
  exact hsound

theorem append (hgroups : AllSound repository world groups)
    (hothers : AllSound repository world others) :
    AllSound repository world (groups ++ others) := by
  intro group hgroup
  rcases List.mem_append.mp hgroup with hgroup | hgroup
  · exact hgroups group hgroup
  · exact hothers group hgroup

theorem left (hsound : AllSound repository world (groups ++ others)) :
    AllSound repository world groups :=
  hsound.subset (List.subset_append_left _ _)

theorem right (hsound : AllSound repository world (groups ++ others)) :
    AllSound repository world others :=
  hsound.subset (List.subset_append_right _ _)

end AllSound

/-! ## Merged groups -/

namespace Merge

/-- A merged record is new and comes from the mod of its creator. -/
theorem introduces_of_mem_merged {pool : Pool} {kind : String} {mods : List Mod}
    (hmods : mods ⊆ repository.list) (hloaded : repository.Loaded pool)
    {entry : String × Record}
    (hentry : entry ∈ (mergeAll pool (Repository.collect pool kind mods)).merged) :
    entry.2.mod = entry.1 ∧ entry.2.isNew = true ∧
      repository.Introduces pool entry.1 entry.2.id := by
  rw [merged_mergeAll, List.mem_filterMap] at hentry
  obtain ⟨id, -, hmerged⟩ := hentry
  obtain ⟨creator, hcreator, rfl⟩ := Option.map_eq_some_iff.mp hmerged
  obtain ⟨hcollected, -⟩ := mem_versionsOf.mp (creator?_mem hcreator)
  have hnew : (pool.get creator.record).isNew = true := by
    simpa using List.find?_some hcreator
  obtain ⟨mod, hmod, hmember⟩ := List.mem_flatMap.mp hcollected
  obtain ⟨ref, hkind, rfl⟩ := List.mem_map.mp hmember
  have href : ref ∈ mod.records := (List.mem_filter.mp hkind).1
  have hheld : pool.Holds ref :=
    hloaded.held ref (Repository.mem_places.mpr ⟨mod, hmods hmod, href⟩)
  refine ⟨?_, ?_, ?_⟩
  · exact (keeps_mergeVersions Record.mod (fun _ _ => rfl) pool _ _).trans
      (hloaded.named mod (hmods hmod) ref href)
  · exact (keeps_mergeVersions Record.isNew (fun _ _ => rfl) pool _ _).trans hnew
  · rw [id_mergeVersions]
    exact ⟨mod, hmods hmod, rfl, ref, href, hheld, rfl, hnew⟩

/-- Merging gives a sound group. -/
theorem sound_place {kind : String} {mods : List Mod} (hmods : mods ⊆ repository.list)
    (hloaded : repository.Loaded before.pool)
    {outcome : Outcome}
    (houtcome : outcome = mergeAll before.pool (Repository.collect before.pool kind mods))
    (hpool : after.pool = (outcome.place before.pool).1) :
    (outcome.place before.pool).2.Sound repository after := by
  have hmembers := members_place outcome before.pool
  have hkept := keptIn_place outcome before.pool
  have hfresh := fresh_place outcome before.pool
  rw [← hpool] at hmembers hkept hfresh
  constructor
  · intro member hmember
    obtain ⟨hnew, hheld⟩ := hfresh member.record (List.mem_map_of_mem hmember)
    have hentry : (member.mod, after.pool.get member.record) ∈ outcome.merged := by
      rw [← hmembers]
      exact List.mem_map_of_mem hmember
    rw [houtcome] at hentry
    obtain ⟨hmod, hflag, hintroduces⟩ := introduces_of_mem_merged hmods hloaded hentry
    exact {
      held := hheld
      mod := hmod
      isNew := hflag
      apart := fun hplace => hnew (hloaded.held _ hplace)
      origin := Or.inl (hintroduces.mono hkept.retains) }
  · have hdistinct :=
      nodup_merged_mergeAll before.pool (Repository.collect before.pool kind mods)
    rw [← houtcome, ← hmembers, List.map_map] at hdistinct
    exact hdistinct

end Merge

end Patchwork
