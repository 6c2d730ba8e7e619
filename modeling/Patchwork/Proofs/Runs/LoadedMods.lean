import Patchwork.Mod.File
import Patchwork.Proofs.Evaluation.Yields
import Patchwork.Proofs.Merge.LoadedLast
import Patchwork.Proofs.Relocation.Runs

/-!
# Loaded mods stay as they are

A run leaves every record of the loaded mods as it was loaded, whatever its lines
do and wherever it ends.  The main statement says so of the state before the first
line, between any two lines and after the last one, and it follows that a group
query resolves to the same records at all of these points if its condition looks
at nothing but the record it judges.
-/

namespace Patchwork

open Agree

/-! ## Staying in place -/

namespace Relocation

/-- Nothing gets another place or another mark. -/
def staying (loaded : List RecordRef) (pristine : Pool) : Relocation where
  loaded := loaded
  pristine := pristine
  ref := id
  mark := fun mark => mark
  ref_injective := Function.injective_id
  mark_injective := fun _ _ hsame => hsame
  mark_zero := rfl

variable {loaded : List RecordRef} {pristine : Pool}

theorem record_remark_staying (record : Record) :
    record.remark (staying loaded pristine).mark = record :=
  record.remark_id

theorem mod_relocate_staying (mod : Mod) :
    mod.relocate (staying loaded pristine) = mod := by
  simp only [Mod.relocate, staying, List.map_id]

theorem repository_relocate_staying (repository : Repository) :
    repository.relocate (staying loaded pristine) = repository := by
  have hmods : Prod.map id (Mod.relocate (staying loaded pristine)) =
      (id : String × Mod → String × Mod) := by
    funext entry
    exact Prod.ext rfl (mod_relocate_staying entry.2)
  simp only [Repository.relocate, Entries.convert, hmods, List.map_id]

theorem pools_staying (hheld : ∀ ref ∈ loaded, pristine.Holds ref) :
    (staying loaded pristine).Pools pristine pristine where
  get _ := (record_remark_staying _).symm
  next _ := rfl
  kept ref hloaded := ⟨hheld ref hloaded, rfl⟩

end Relocation

namespace Repository

/-- The places of the records of the loaded mods. -/
def places (repository : Repository) : List RecordRef :=
  repository.list.flatMap Mod.records

theorem mem_places {repository : Repository} {ref : RecordRef} :
    ref ∈ repository.places ↔ ∃ mod ∈ repository.list, ref ∈ mod.records := by
  simp [places]

/-- What the loaded mods state: their headers and their records, in order. -/
def content (repository : Repository) (pool : Pool) : List ModFile :=
  repository.list.map (ModFile.ofMod pool)

theorem content_congr {repository : Repository} {pool later : Pool}
    (hsame : ∀ ref ∈ repository.places, later.get ref = pool.get ref) :
    repository.content later = repository.content pool := by
  refine List.map_congr_left fun mod hmod => ?_
  have hrecords : mod.records.map later.get = mod.records.map pool.get :=
    List.map_congr_left fun ref href => hsame ref (mem_places.mpr ⟨mod, hmod, href⟩)
  simp only [ModFile.ofMod, hrecords]

end Repository

/-- A mod to be patched that shares no record with the loaded mods, whose records
are all in the pool. -/
structure Repository.Apart (repository : Repository) (pool : Pool) (mod : Mod) : Prop where
  held : ∀ ref ∈ repository.places, pool.Holds ref
  apart : ∀ ref ∈ mod.records, ref ∉ repository.places

section

variable {patcher : Patcher} {mod : Mod}

theorem patchers_start (hapart : patcher.repository.Apart patcher.world.pool mod) :
    (Relocation.staying patcher.repository.places patcher.world.pool).Patchers
      patcher.repository patcher.seed (patcher.reset.start mod) (patcher.reset.start mod) where
  mods := rfl
  relocated := (Relocation.repository_relocate_staying _).symm
  seed := rfl
  environments := ⟨rfl, ⟨(fun _ hmem => nomatch hmem), (fun _ hmem => nomatch hmem)⟩⟩
  worlds := {
    pools := Relocation.pools_staying hapart.held
    active := Option.Rel.some ⟨(Relocation.mod_relocate_staying mod).symm, hapart.apart⟩
    draws := rfl
    stopping := rfl
    marks := fun _ => rfl }
  listed := rfl

/-- The patcher after some lines of a run on a mod, or after the first of them that
fails or asks to stop. -/
def Patcher.afterLines (patcher : Patcher) (mod : Mod) (lines : List String) : Patcher :=
  (executeLines 1 0 lines (patcher.reset.start mod)).2

/-- The loaded mods are the same after any lines, and so is every record of them. -/
theorem afterLines_keeps (hapart : patcher.repository.Apart patcher.world.pool mod)
    (lines : List String) :
    (patcher.afterLines mod lines).repository = patcher.repository ∧
      ∀ ref ∈ patcher.repository.places,
        (patcher.afterLines mod lines).world.pool.get ref = patcher.world.pool.get ref := by
  obtain ⟨-, hpatchers⟩ := executeLines_relocate 1 0 lines (patchers_start hapart)
  exact ⟨hpatchers.mods, fun ref href => (hpatchers.worlds.pools.kept ref href).2⟩

end

/-! ## What queries resolve to -/

namespace Merge

theorem merged_mergeAll_congr {pool later : Pool} {members : List Member}
    (hsame : ∀ member ∈ members, later.get member.record = pool.get member.record) :
    (mergeAll later members).merged = (mergeAll pool members).merged := by
  have hidentity : ∀ member ∈ members, identity later member = identity pool member :=
    fun member hmember => congrArg Record.id (hsame member hmember)
  have hidentities : identities later members = identities pool members :=
    congrArg distinct (List.map_congr_left hidentity)
  have hversions : ∀ id, versionsOf later members id = versionsOf pool members id :=
    fun id => List.filter_congr fun member hmember => by rw [hidentity member hmember]
  rw [merged_mergeAll, merged_mergeAll, hidentities]
  congr 1
  funext id
  rw [hversions]
  exact mergedVersion?_congr fun version hversion => hsame version (mem_versionsOf.mp hversion).1

end Merge

namespace Repository

theorem collect_congr {pool later : Pool} {mods : List Mod}
    (hsame : ∀ mod ∈ mods, ∀ ref ∈ mod.records, later.get ref = pool.get ref)
    (kind : String) : collect later kind mods = collect pool kind mods := by
  simp only [collect, List.flatMap]
  congr 1
  refine List.map_congr_left fun mod hmod => ?_
  have hkinds : mod.ofKind later kind = mod.ofKind pool kind :=
    List.filter_congr fun ref href => by rw [hsame mod hmod ref href]
  rw [hkinds]

theorem mem_of_mem_select {repository : Repository} {selector : String} {mod : Mod}
    (hmod : mod ∈ (repository.select selector).1) : mod ∈ repository.list := by
  rw [select] at hmod
  split at hmod
  · exact hmod
  · obtain ⟨entry, hentry, rfl⟩ := List.mem_map.mp hmod
    exact List.mem_map_of_mem (List.mem_filter.mp hentry).1

/-- What the selected mods' records of a kind are merged into, each with the mod
that created it. -/
def mergedContent (repository : Repository) (pool : Pool) (selector kind : String) :
    List (String × Record) :=
  (Merge.mergeAll pool (collect pool kind (repository.select selector).1)).merged

theorem mergedContent_congr {repository : Repository} {pool later : Pool}
    (hsame : ∀ ref ∈ repository.places, later.get ref = pool.get ref)
    (selector kind : String) :
    repository.mergedContent later selector kind =
      repository.mergedContent pool selector kind := by
  have hmods : ∀ mod ∈ (repository.select selector).1, ∀ ref ∈ mod.records,
      later.get ref = pool.get ref := fun mod hmod ref href =>
    hsame ref (mem_places.mpr ⟨mod, mem_of_mem_select hmod, href⟩)
  rw [mergedContent, collect_congr hmods, mergedContent]
  refine Merge.merged_mergeAll_congr fun member hmember => ?_
  obtain ⟨mod, hmod, hcollected⟩ := List.mem_flatMap.mp hmember
  obtain ⟨ref, href, rfl⟩ := List.mem_map.mp hcollected
  exact hmods mod hmod ref (List.mem_filter.mp href).1

end Repository

/-- A record of a group with the mod it was taken from. -/
def Member.content (pool : Pool) (member : Member) : String × Record :=
  (member.mod, pool.get member.record)

/-- The records of a group, each with the mod it was taken from. -/
def Group.content (pool : Pool) (group : Group) : List (String × Record) :=
  group.members.map (Member.content pool)

/-- A condition that looks at nothing but the record it judges: whatever the
state of the run, it says of a record what the verdict on its content is, and it
leaves every record as it is. -/
def Judges (condition : RecordRef → Eval Bool) (verdict : Record → Except Fault Bool) : Prop :=
  ∀ ref world, ((condition ref).run world).1 = verdict (world.pool.get ref) ∧
    world.pool.KeptIn ((condition ref).run world).2.pool

/-- The records a verdict accepts, or the first of them. -/
def keptContent (mode : SelectionMode) (verdict : Record → Except Fault Bool) :
    List (String × Record) → Except Fault (List (String × Record))
  | [] => .ok []
  | entry :: rest => do
    if ← verdict entry.2 then
      match mode with
      | .firstMatch => return [entry]
      | .allMatches => return entry :: (← keptContent mode verdict rest)
    else keptContent mode verdict rest

theorem Pool.KeptIn.content_eq {pool later : Pool} (hkept : pool.KeptIn later)
    {members : List Member} (hheld : ∀ member ∈ members, pool.Holds member.record) :
    members.map (Member.content later) = members.map (Member.content pool) :=
  List.map_congr_left fun member hmember =>
    congrArg (Prod.mk member.mod) (hkept member.record (hheld member hmember)).2

section

variable {condition : RecordRef → Eval Bool} {verdict : Record → Except Fault Bool}

theorem keepMatches_content (hjudges : Judges condition verdict) (mode : SelectionMode)
    {members : List Member} {world : World}
    (hheld : ∀ member ∈ members, world.pool.Holds member.record) :
    (((keepMatches mode condition members).run world).1.map
        (List.map (Member.content ((keepMatches mode condition members).run world).2.pool)) =
      keptContent mode verdict (members.map (Member.content world.pool))) ∧
    world.pool.KeptIn ((keepMatches mode condition members).run world).2.pool := by
  induction members generalizing world with
  | nil => exact ⟨rfl, Pool.KeptIn.refl _⟩
  | cons member rest ih =>
    obtain ⟨hverdict, hkept⟩ := hjudges member.record world
    have hsame : ∀ {later : Pool}, world.pool.KeptIn later →
        [member].map (Member.content later) = [member].map (Member.content world.pool) :=
      fun hlater => hlater.content_eq fun other hother =>
        hheld other (List.mem_singleton.mp hother ▸ List.mem_cons_self)
    unfold keepMatches keptContent
    simp only [List.map_cons]
    rw [Eval.run_bind]
    have hjudged : verdict (Member.content world.pool member).2 =
        ((condition member.record).run world).1 := hverdict.symm
    rw [hjudged]
    generalize (condition member.record).run world = judged at hkept ⊢
    obtain ⟨outcome, between⟩ := judged
    cases outcome with
    | error fault => exact ⟨rfl, hkept⟩
    | ok accepted =>
      have hrestHeld : ∀ other ∈ rest, between.pool.Holds other.record := fun other hother =>
        (hkept other.record (hheld other (List.mem_cons_of_mem _ hother))).1
      obtain ⟨hcontent, hlater⟩ := ih hrestHeld
      rw [hkept.content_eq fun other hother => hheld other (List.mem_cons_of_mem _ hother)]
        at hcontent
      cases accepted with
      | false => exact ⟨hcontent, hkept.trans hlater⟩
      | true =>
        cases mode with
        | firstMatch =>
          exact ⟨congrArg Except.ok (hsame hkept), hkept⟩
        | allMatches =>
          have hmember := hsame (hkept.trans hlater)
          dsimp only at hmember hcontent ⊢
          rw [if_pos rfl, Eval.run_bind, ← hcontent]
          generalize (keepMatches .allMatches condition rest).run between = after
            at hmember hlater ⊢
          obtain ⟨outcome, last⟩ := after
          cases outcome with
          | error fault => exact ⟨rfl, hkept.trans hlater⟩
          | ok others =>
            refine ⟨congrArg Except.ok ?_, hkept.trans hlater⟩
            exact congrArg (· ++ others.map (Member.content last.pool)) hmember

theorem Eval.place_yields (outcome : Merge.Outcome) (world : World) :
    (Eval.place outcome).Yields world (outcome.place world.pool).2
      { world with
        pool := (outcome.place world.pool).1
        journal := world.journal ++ outcome.notices.toArray } := rfl

theorem mergedRecords_yields (repository : Repository) (selector kind : String)
    (world : World) :
    ∃ group orphans after,
      (mergedRecords repository selector kind).Yields world (group, orphans) after ∧
        (∀ member ∈ group.members, after.pool.Holds member.record) ∧
        group.content after.pool = repository.mergedContent world.pool selector kind := by
  -- The merge reads only the pool, so a notice before it makes no difference.
  have hmerged : ∀ before : World, before.pool = world.pool →
      ∃ group orphans after,
        (do
          let pool := (← get).pool
          let outcome := Merge.mergeAll pool
            (Repository.collect pool kind (repository.select selector).1)
          return (← Eval.place outcome, outcome.orphans) : Eval (Group × List String)).Yields
            before (group, orphans) after ∧
        (∀ member ∈ group.members, after.pool.Holds member.record) ∧
        group.content after.pool = repository.mergedContent world.pool selector kind := by
    intro before hpool
    generalize houtcome : Merge.mergeAll before.pool
      (Repository.collect before.pool kind (repository.select selector).1) = outcome
    have hcontent : (outcome.place before.pool).2.content (outcome.place before.pool).1 =
        repository.mergedContent world.pool selector kind := by
      rw [Repository.mergedContent, ← hpool, houtcome]
      exact Merge.members_place outcome before.pool
    refine ⟨(outcome.place before.pool).2, outcome.orphans, { before with
        pool := (outcome.place before.pool).1
        journal := before.journal ++ outcome.notices.toArray }, ?_,
      fun member hmember => (Merge.fresh_place outcome before.pool member.record
        (List.mem_map_of_mem hmember)).2, hcontent⟩
    refine Eval.yields_bind.mpr ⟨before, before, Eval.yields_get.mpr ⟨rfl, rfl⟩, ?_⟩
    dsimp only
    rw [houtcome]
    exact Eval.yields_bind.mpr
        ⟨_, _, Eval.place_yields outcome before, Eval.yields_pure.mpr ⟨rfl, rfl⟩⟩
  unfold mergedRecords
  dsimp only
  cases Repository.missingNotice? (repository.select selector).2 with
  | none => exact hmerged world rfl
  | some notice =>
    obtain ⟨group, orphans, after, hyields, hgroup⟩ :=
      hmerged { world with journal := world.journal.push notice } rfl
    exact ⟨group, orphans, after, Eval.yields_bind.mpr ⟨_, _, rfl, hyields⟩, hgroup⟩

/-- A group query keeps what the verdict accepts of the merged records of the
loaded mods. -/
theorem resolveGroup_content (repository : Repository) (selector kind : String)
    (hjudges : Judges condition verdict) (mode : SelectionMode) (world : World) :
    ((resolveGroup repository selector kind condition mode).run world).1.map
        (Group.content ((resolveGroup repository selector kind condition mode).run world).2.pool) =
      keptContent mode verdict (repository.mergedContent world.pool selector kind) := by
  obtain ⟨group, orphans, after, hmerged, hheld, hcontent⟩ :=
    mergedRecords_yields repository selector kind world
  have hkept := (keepMatches_content hjudges mode hheld).1
  rw [← hcontent, Group.content, ← hkept, resolveGroup, Eval.run_bind,
    show (mergedRecords repository selector kind).run world = _ from hmerged]
  dsimp only
  rw [Eval.run_bind]
  generalize (keepMatches mode condition group.members).run after = kept
  obtain ⟨outcome, last⟩ := kept
  cases outcome <;> rfl

end

/-! ## The whole run -/

/-- A query whose condition is independent of the run: it judges a record by its
content alone, whatever has been defined. -/
def GroupQuery.Independent (repository : Repository) (query : GroupQuery) : Prop :=
  ∃ verdict, ∀ environment,
    Judges (query.condition.holds ⟨environment, repository⟩ "group condition") verdict

/-- The content of the group that a query stands for at some point of a run, or
the fault of its condition. -/
def Patcher.contentOf (patcher : Patcher) (query : GroupQuery) :
    Except Fault (List (String × Record)) :=
  let resolved := (resolveGroup patcher.repository query.selector
    query.definition.kind (query.condition.holds patcher.setting "group condition")
    query.definition.mode).run patcher.world
  resolved.1.map (Group.content resolved.2.pool)

theorem Patcher.contentOf_eq {repository : Repository} {query : GroupQuery}
    {verdict : Record → Except Fault Bool}
    (hjudges : ∀ environment,
      Judges (query.condition.holds ⟨environment, repository⟩ "group condition") verdict)
    {patcher : Patcher} (hrepository : patcher.repository = repository) :
    patcher.contentOf query =
      keptContent query.definition.mode verdict
        (repository.mergedContent patcher.world.pool query.selector query.definition.kind) := by
  subst hrepository
  have hsetting : Judges (query.condition.holds patcher.setting "group condition") verdict :=
    hjudges patcher.environment
  rw [Patcher.contentOf]
  exact resolveGroup_content patcher.repository query.selector query.definition.kind
    hsetting query.definition.mode patcher.world

/-- At any point of a script, the loaded mods state what they stated before its
first line, and a query whose condition is independent of the run stands for
records of the same content. -/
theorem afterLines_loadedMods_unchanged (patcher : Patcher) (mod : Mod)
    (hapart : patcher.repository.Apart patcher.world.pool mod) (lines : List String)
    (count : Nat) :
    (patcher.afterLines mod (lines.take count)).repository = patcher.repository ∧
      patcher.repository.content (patcher.afterLines mod (lines.take count)).world.pool =
        patcher.repository.content patcher.world.pool ∧
      ∀ query : GroupQuery, query.Independent patcher.repository →
        (patcher.afterLines mod (lines.take count)).contentOf query =
          (patcher.afterLines mod []).contentOf query := by
  obtain ⟨hrepository, hsame⟩ := afterLines_keeps hapart (lines.take count)
  refine ⟨hrepository, Repository.content_congr hsame, ?_⟩
  rintro query ⟨verdict, hjudges⟩
  obtain ⟨hrepositoryStart, hsameStart⟩ := afterLines_keeps hapart []
  rw [Patcher.contentOf_eq hjudges hrepository, Patcher.contentOf_eq hjudges hrepositoryStart,
    Repository.mergedContent_congr hsame, Repository.mergedContent_congr hsameStart]

/-- A loaded mod with one weapon. -/
def armoury : Pool × Mod :=
  Mod.create {} "base" [{ id := "7-base", kind := "WEAPON", isNew := true
                          fields := [(.str "damage", .int 5)] }] [] []

/-- A patcher that has loaded the mod with the weapon. -/
def armourer : Patcher :=
  { repository := ⟨[("base", armoury.2)]⟩, world := { pool := armoury.1 } }

/-- A mod to be patched, without records. -/
def sharper : Mod := { name := "sharper" }

/-- A script that changes and deletes every weapon with a damage and then fails. -/
def blunting : List String :=
  ["blades := (all)(A:WEAPON|FieldExist(\"damage\"))",
    "blades -> SetField(\"damage\", \"1\")",
    "blades -> DeleteRecords()",
    "blades -> SetField(\"weight\", \"2\")"]

/-- All weapons that have a damage. -/
def damaging : GroupQuery where
  selector := "all"
  definition := ⟨.allMatches, "WEAPON", "FieldExist(\"damage\")"⟩
  condition := .test .fieldExist [.literal (.string "damage")]

theorem damaging_independent (repository : Repository) : damaging.Independent repository := by
  refine ⟨fun record => .ok (record.hasField "damage"), fun environment ref world => ?_⟩
  have hrun : ((damaging.condition.holds ⟨environment, repository⟩ "group condition") ref).run
      world = (.ok ((world.pool.get ref).hasField "damage"), world) := by
    rw [damaging, Node.holds, Node.evaluate, Node.evaluateWith, argumentsWith, argumentsWith]
    rfl
  rw [hrun]
  exact ⟨rfl, Pool.KeptIn.refl _⟩

theorem blunting_loadedMods_unchanged :
    armourer.repository.content (armourer.afterLines sharper (blunting.take 3)).world.pool =
        armourer.repository.content armourer.world.pool ∧
      (armourer.afterLines sharper (blunting.take 3)).contentOf damaging =
        (armourer.afterLines sharper []).contentOf damaging := by
  have hplaces : armourer.repository.places = [⟨0⟩] := rfl
  have hapart : armourer.repository.Apart armourer.world.pool sharper := by
    refine ⟨fun ref href => ?_, fun ref href => nomatch href⟩
    rw [hplaces] at href
    obtain rfl := List.mem_singleton.mp href
    exact Nat.zero_lt_one
  obtain ⟨-, hcontent, hqueries⟩ :=
    afterLines_loadedMods_unchanged armourer sharper hapart blunting 3
  exact ⟨hcontent, hqueries damaging (damaging_independent _)⟩

end Patchwork
