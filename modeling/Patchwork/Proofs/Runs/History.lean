import Patchwork.Proofs.Relocation.Gathering

/-!
# Runs after other runs

A patcher may have run any scripts before, on any mods, and each run may have been
saved, stopped or failed.  The next run starts from nothing that the earlier ones
have left behind: it gives the result that a new patcher gives, it leaves the mod
with the same content and everything defined alike, and it saves as often.
-/

namespace Patchwork

/-! ## What a run leaves alone -/

/-- The loaded mods are the same, with the same records, and no mark that has been
given will be given again. -/
structure Patcher.Spares (before after : Patcher) : Prop where
  repository : after.repository = before.repository
  seed : after.seed = before.seed
  loaded : ∀ ref ∈ before.repository.places,
    after.world.pool.Holds ref ∧ after.world.pool.get ref = before.world.pool.get ref
  marks : before.world.marks ≤ after.world.marks

namespace Patcher.Spares

theorem trans {first second third : Patcher} (hfirst : first.Spares second)
    (hsecond : second.Spares third) : first.Spares third where
  repository := hsecond.repository.trans hfirst.repository
  seed := hsecond.seed.trans hfirst.seed
  loaded := by
    intro ref href
    obtain ⟨-, hget⟩ := hfirst.loaded ref href
    obtain ⟨hheld, hlast⟩ := hsecond.loaded ref (hfirst.repository ▸ href)
    exact ⟨hheld, hlast.trans hget⟩
  marks := Nat.le_trans hfirst.marks hsecond.marks

end Patcher.Spares

/-! ## Marks -/

namespace Relocation

/-- Nothing gets another place, and the marks from `bound` on are moved by one. -/
def spacing (bound : Nat) : Relocation where
  loaded := []
  pristine := {}
  ref := id
  mark := fun given => if given ≤ bound then given else given + 1
  ref_injective := Function.injective_id
  mark_injective := by
    intro first second hsame
    dsimp only at hsame
    split at hsame <;> split at hsame <;> omega
  mark_zero := if_pos (Nat.zero_le bound)

end Relocation

/-- The pool with other marks in all records. -/
def Pool.remark (mark : Nat → Nat) (pool : Pool) : Pool :=
  ⟨pool.records.map (Record.remark mark)⟩

theorem Pool.get_remark (mark : Nat → Nat) (pool : Pool) (ref : RecordRef) :
    (pool.remark mark).get ref = (pool.get ref).remark mark := by
  simp only [Pool.get, Pool.remark, Array.getD_eq_getD_getElem?, Array.getElem?_map]
  cases pool.records[ref.index]? with
  | none => rfl
  | some record => rfl

/-- The patcher with the marks from the next one on moved by one. -/
def Patcher.spaced (patcher : Patcher) : Patcher :=
  { patcher with
    repository := patcher.repository.relocate (Relocation.spacing patcher.world.marks)
    world := { patcher.world with
      pool := patcher.world.pool.remark (Relocation.spacing patcher.world.marks).mark
      marks := patcher.world.marks + 1 } }

theorem patchers_spaced (patcher : Patcher) (mod : Mod) :
    (Relocation.spacing patcher.world.marks).Patchers patcher.repository patcher.seed
      (patcher.reset.start mod)
      (patcher.spaced.reset.start (mod.relocate (Relocation.spacing patcher.world.marks))) where
  mods := rfl
  relocated := rfl
  seed := rfl
  environments := ⟨rfl, ⟨(fun _ hmem => nomatch hmem), (fun _ hmem => nomatch hmem)⟩⟩
  worlds := {
    pools := {
      get := fun ref => patcher.world.pool.get_remark _ ref
      next := by
        intro offset
        change (⟨patcher.world.pool.records.size + offset⟩ : RecordRef) =
          ⟨(patcher.world.pool.remark _).records.size + offset⟩
        rw [Pool.remark, Array.size_map]
      kept := fun _ hloaded => nomatch hloaded }
    active := Option.Rel.some ⟨rfl, fun _ _ hloaded => nomatch hloaded⟩
    draws := rfl
    stopping := rfl
    marks := by
      intro offset
      change (if patcher.world.marks + 1 + offset ≤ patcher.world.marks then _ else _) = _
      rw [if_neg (by omega)]
      change patcher.world.marks + 1 + offset + 1 = patcher.world.marks + 1 + 1 + offset
      omega }
  listed := rfl

/-- No mark that has been given is given again by a script.  Otherwise it would come out
both as it is and moved by one when all later marks are moved by one. -/
theorem afterLines_marks (patcher : Patcher) (mod : Mod) (lines : List String) :
    patcher.world.marks ≤ (patcher.afterLines mod lines).world.marks := by
  obtain ⟨-, hpatchers⟩ := executeLines_relocate 1 0 lines (patchers_spaced patcher mod)
  have hmarks := hpatchers.worlds.marks
  change ∀ offset, (if (patcher.afterLines mod lines).world.marks + 1 + offset ≤
      patcher.world.marks then _ else _) = _ at hmarks
  by_contra hfewer
  have hnext := hmarks 0
  have hlast := hmarks (patcher.world.marks - (patcher.afterLines mod lines).world.marks)
  rw [if_pos (by omega)] at hnext
  rw [if_neg (by omega)] at hlast
  change _ + 1 + 0 = _ + 1 + 0 at hnext
  change _ + 1 + _ + 1 = _ + 1 + _ at hlast
  omega

/-! ## Whole runs -/

namespace Patcher

/-- Only notices and the phase differ. -/
structure Noted (before after : Patcher) : Prop where
  repository : after.repository = before.repository
  seed : after.seed = before.seed
  pool : after.world.pool = before.world.pool
  marks : after.world.marks = before.world.marks

theorem noted_note (patcher : Patcher) (level : Level) (source : Source) (text : String) :
    patcher.Noted (patcher.note level source text) :=
  ⟨rfl, rfl, rfl, rfl⟩

theorem Noted.trans {first second third : Patcher} (hfirst : first.Noted second)
    (hsecond : second.Noted third) : first.Noted third :=
  ⟨hsecond.repository.trans hfirst.repository, hsecond.seed.trans hfirst.seed,
    hsecond.pool.trans hfirst.pool, hsecond.marks.trans hfirst.marks⟩

theorem noted_failRun (patcher : Patcher) (result : RunResult) (message : String) :
    patcher.Noted (patcher.failRun result message).2 :=
  ⟨rfl, rfl, rfl, rfl⟩

theorem noted_notes (patcher : Patcher) (notices : List Notice) :
    patcher.Noted (notices.foldl (fun patcher notice =>
      patcher.note notice.level notice.source notice.text) patcher) := by
  induction notices generalizing patcher with
  | nil => exact ⟨rfl, rfl, rfl, rfl⟩
  | cons notice rest ih =>
    exact (patcher.noted_note notice.level notice.source notice.text).trans (ih _)

theorem noted_saveRun {Place : Type} (patcher : Patcher) (save : Save Place) (place : Place)
    (mod : Mod) (result : RunResult) :
    patcher.Noted (patcher.saveRun save place mod result).2.1 := by
  rw [saveRun]
  generalize save patcher.world.pool mod place = saved
  obtain ⟨outcome, after⟩ := saved
  cases outcome with
  | error message => exact patcher.noted_failRun result _
  | ok notices =>
    exact (patcher.noted_notes notices).trans ⟨rfl, rfl, rfl, rfl⟩

/-- After its lines a run changes nothing but notices and the phase. -/
theorem noted_runPrepared {Place : Type} (patcher : Patcher) (save : Save Place)
    (place : Place) (lines : List String) (mod : Mod) (result : RunResult) :
    (executeLines 1 0 lines (patcher.start mod)).2.Noted
      (patcher.runPrepared save place lines mod result).2.1 := by
  rw [runPrepared]
  generalize executeLines 1 0 lines (patcher.start mod) = executed
  obtain ⟨⟨count, failure⟩, after⟩ := executed
  cases failure with
  | some failure => exact after.noted_failRun _ _
  | none =>
    dsimp only
    split
    · exact ⟨rfl, rfl, rfl, rfl⟩
    · exact after.noted_saveRun save place _ _

end Patcher

/-- A run spares the loaded mods, whatever its script does and however it ends. -/
theorem spares_runLines {patcher : Patcher} {mod : Mod}
    (hheld : ∀ ref ∈ patcher.repository.places, patcher.world.pool.Holds ref)
    (hapart : ∀ own ∈ mod.records, own ∉ patcher.repository.places) {Place : Type}
    (save : Save Place) (place : Place) (lines : List String) :
    patcher.Spares (patcher.runLines save place lines mod).2.1 := by
  have hnoted := patcher.reset.noted_runPrepared save place lines mod { mod := mod.name }
  obtain ⟨-, hpatchers⟩ := executeLines_relocate 1 0 lines (patchers_start ⟨hheld, hapart⟩)
  exact {
    repository := hnoted.repository.trans hpatchers.mods
    seed := hnoted.seed.trans hpatchers.seed
    loaded := by
      intro ref href
      rw [Patcher.runLines, hnoted.pool]
      exact hpatchers.worlds.pools.kept ref href
    marks := by
      rw [Patcher.runLines, hnoted.marks]
      exact afterLines_marks patcher mod lines }

/-! ## Histories -/

/-- What may have happened to a patcher: runs of any scripts on mods apart from the
loaded ones, each of them saved, stopped or failed, and outside of runs anything that
spares the loaded mods. -/
inductive Patcher.History (start : Patcher) : Patcher → Prop
  | start : History start start
  | outside {before after : Patcher} (hhistory : History start before)
      (hspares : before.Spares after) : History start after
  | run {before : Patcher} (hhistory : History start before) {mod : Mod}
      (hapart : ∀ own ∈ mod.records, own ∉ before.repository.places) {Place : Type}
      (save : Save Place) (place : Place) (lines : List String) :
      History start (before.runLines save place lines mod).2.1

theorem Patcher.History.spares {start later : Patcher} (hhistory : start.History later)
    (hheld : ∀ ref ∈ start.repository.places, start.world.pool.Holds ref) :
    start.Spares later := by
  induction hhistory with
  | start => exact ⟨rfl, rfl, fun ref href => ⟨hheld ref href, rfl⟩, Nat.le_refl _⟩
  | outside _ hspares ih => exact ih.trans hspares
  | run _ hapart save place lines ih =>
    refine ih.trans (spares_runLines (fun ref href => ?_) hapart save place lines)
    exact (ih.loaded ref (ih.repository ▸ href)).1

/-! ## The next run -/

/-- A mod that can be patched: its records are in the pool, each once and apart from
the loaded mods, and no mark in them is later than `bound`, which has been given. -/
structure Patcher.Separate (patcher : Patcher) (mod : Mod) (bound : Nat) : Prop where
  given : bound ≤ patcher.world.marks
  held : ∀ own ∈ mod.records, patcher.world.pool.Holds own
  marked : ∀ own ∈ mod.records, (patcher.world.pool.get own).MarkedWithin bound
  apart : ∀ own ∈ mod.records, own ∉ patcher.repository.places
  once : mod.records.Nodup

/-- Two mods that hold the same, down to the marks. -/
structure Mod.Twins (pool : Pool) (mod : Mod) (pool' : Pool) (mod' : Mod) : Prop where
  name : mod'.name = mod.name
  dependencies : mod'.dependencies = mod.dependencies
  references : mod'.references = mod.references
  deleted : mod'.deleted = mod.deleted
  records : mod'.records.map pool'.get = mod.records.map pool.get

theorem Patcher.Separate.admits {start patcher : Patcher} {mod : Mod} {bound : Nat}
    (hseparate : patcher.Separate mod bound) (hspares : start.Spares patcher)
    (hmarked : ∀ ref ∈ start.repository.places,
      (start.world.pool.get ref).MarkedWithin start.world.marks) :
    patcher.Admits mod (max bound start.world.marks) where
  given := Nat.max_le.mpr ⟨hseparate.given, hspares.marks⟩
  loadedHeld := fun ref href => (hspares.loaded ref (hspares.repository ▸ href)).1
  loadedMarked := by
    intro ref href
    have hstart : ref ∈ start.repository.places := hspares.repository ▸ href
    rw [(hspares.loaded ref hstart).2]
    exact (hmarked ref hstart).mono (Nat.le_max_right _ _)
  held := hseparate.held
  marked := fun own hown => (hseparate.marked own hown).mono (Nat.le_max_left _ _)
  apart := hseparate.apart
  once := hseparate.once

theorem idxOf_placesWith {repository : Repository} {mod : Mod} {ref : RecordRef}
    (href : ref ∈ repository.places) :
    (repository.placesWith mod).idxOf ref = (distinct repository.places).idxOf ref :=
  List.idxOf_append_of_mem (mem_distinct.mpr href)

theorem gather_placesWith {repository : Repository} {mod : Mod} (honce : mod.records.Nodup)
    (hapart : ∀ own ∈ mod.records, own ∉ repository.places) :
    (mod.gather (repository.placesWith mod)).records =
      (List.range mod.records.length).map fun index =>
        ⟨(distinct repository.places).length + index⟩ := by
  refine List.ext_getElem (by simp [Mod.gather]) fun index hleft hright => ?_
  have hindex : index < mod.records.length := by simpa [Mod.gather] using hleft
  have hown := hapart mod.records[index] (List.getElem_mem hindex)
  simp only [Mod.gather, List.getElem_map, List.getElem_range, Repository.placesWith]
  rw [List.idxOf_append_of_notMem fun hmem => hown (mem_distinct.mp hmem),
    honce.idxOf_getElem]

/-- Runs on mods that hold the same, beside the same loaded mods, have one origin. -/
theorem origin_congr {patcher patcher' : Patcher} {mod mod' : Mod} {bound : Nat}
    (hadmits : patcher.Admits mod bound) (hadmits' : patcher'.Admits mod' bound)
    (hrepository : patcher'.repository = patcher.repository)
    (hseed : patcher'.seed = patcher.seed)
    (hloaded : ∀ ref ∈ patcher.repository.places,
      patcher'.world.pool.get ref = patcher.world.pool.get ref)
    (htwins : Mod.Twins patcher.world.pool mod patcher'.world.pool mod') :
    patcher'.origin mod' bound = patcher.origin mod bound ∧
      mod'.gather (patcher'.repository.placesWith mod') =
        mod.gather (patcher.repository.placesWith mod) := by
  have hlength : mod'.records.length = mod.records.length := by
    simpa using congrArg List.length htwins.records
  have hmods : mod'.gather (patcher'.repository.placesWith mod') =
      mod.gather (patcher.repository.placesWith mod) := by
    have hrecords : (mod'.gather (patcher'.repository.placesWith mod')).records =
        (mod.gather (patcher.repository.placesWith mod)).records := by
      rw [gather_placesWith hadmits'.once hadmits'.apart,
        gather_placesWith hadmits.once hadmits.apart, hlength, hrepository]
    rw [Mod.gather, Mod.gather, Mod.mk.injEq]
    exact ⟨htwins.name, hrecords, htwins.dependencies, htwins.references, htwins.deleted⟩
  have hpools : patcher'.world.pool.gather (patcher'.repository.placesWith mod') =
      patcher.world.pool.gather (patcher.repository.placesWith mod) := by
    have hgathered : (patcher'.repository.placesWith mod').map patcher'.world.pool.get =
        (patcher.repository.placesWith mod).map patcher.world.pool.get := by
      rw [Repository.placesWith, Repository.placesWith, List.map_append, List.map_append,
        htwins.records, hrepository]
      congr 1
      exact List.map_congr_left fun ref href => hloaded ref (mem_distinct.mp href)
    rw [Pool.gather, hgathered, Pool.gather]
  have hrepositories : patcher'.repository.gather (patcher'.repository.placesWith mod') =
      patcher.repository.gather (patcher.repository.placesWith mod) := by
    rw [hrepository, Repository.gather, Repository.gather, Repository.mk.injEq]
    refine List.map_congr_left fun entry hentry => Prod.ext rfl ?_
    have hrecords : entry.2.records.map
        (fun own => (⟨(patcher.repository.placesWith mod').idxOf own⟩ : RecordRef)) =
          entry.2.records.map fun own => ⟨(patcher.repository.placesWith mod).idxOf own⟩ := by
      refine List.map_congr_left fun own hown => ?_
      have hplace : own ∈ patcher.repository.places :=
        Repository.mem_places.mpr ⟨entry.2, List.mem_map_of_mem hentry, hown⟩
      rw [idxOf_placesWith hplace, idxOf_placesWith hplace]
    simp only [Prod.map_snd, Mod.gather, hrecords]
  refine ⟨?_, hmods⟩
  rw [Patcher.origin, Patcher.origin, hpools, hrepositories, hseed]

/-- Two patchers that differ in nothing but the places of records and the marks: both
are one patcher with its records at other places. -/
def Patcher.Alike (patcher patcher' : Patcher) : Prop :=
  ∃ (origin : Patcher) (relocation relocation' : Relocation),
    relocation.Patchers origin.repository origin.seed origin patcher ∧
      relocation'.Patchers origin.repository origin.seed origin patcher'

/-- The content of the mod that has been patched. -/
def Patcher.patched (patcher : Patcher) : Option ModContent :=
  patcher.world.active.map (Mod.content patcher.world.pool)

/-- A patcher made anew for loaded mods, where some marks have been given. -/
def Patcher.anew (repository : Repository) (pool : Pool) (marks : Nat) (seed : Int) :
    Patcher :=
  { repository := repository, seed := some seed
    world := { (Patcher.create repository pool (some seed)).world with marks := marks } }

theorem Patcher.alike_of_patchers {relocation relocation' : Relocation}
    {repository : Repository} {seed : Option Int} {origin patcher patcher' : Patcher}
    (hpatchers : relocation.Patchers repository seed origin patcher)
    (hpatchers' : relocation'.Patchers repository seed origin patcher') :
    patcher.Alike patcher' := by
  obtain rfl := hpatchers.mods
  obtain rfl := hpatchers.seed
  exact ⟨origin, relocation, relocation', hpatchers, hpatchers'⟩

theorem Patcher.Alike.patched_eq {patcher patcher' : Patcher} (halike : patcher.Alike patcher') :
    patcher'.patched = patcher.patched := by
  have hpatched : ∀ {relocation : Relocation} {origin placed : Patcher},
      relocation.Patchers origin.repository origin.seed origin placed →
        placed.patched = origin.patched := by
    intro relocation origin placed hpatchers
    have hactive := hpatchers.worlds.active
    rw [Patcher.patched, Patcher.patched]
    generalize origin.world.active = active, placed.world.active = active' at hactive ⊢
    cases hactive with
    | none => rfl
    | some hmods =>
      rw [Option.map_some, Option.map_some, hmods.1,
        Mod.content_relocate hpatchers.worlds.pools]
  obtain ⟨origin, relocation, relocation', hleft, hright⟩ := halike
  rw [hpatched hleft, hpatched hright]

/-- After any history, a script on a mod gives the result that it gives on a new patcher
over the same loaded mods with the same seed, saves as often and to the same effect,
leaves the mod with the same content and everything that is defined alike. -/
theorem runLines_after_history {repository : Repository} {seed : Int}
    {loaded pool : Pool} {first marks bound : Nat} {later : Patcher} {mod twin : Mod}
    (hheld : ∀ ref ∈ repository.places, loaded.Holds ref)
    (hmarked : ∀ ref ∈ repository.places, (loaded.get ref).MarkedWithin first)
    (hhistory : (Patcher.anew repository loaded first seed).History later)
    (hpool : ∀ ref ∈ repository.places, pool.Holds ref ∧ pool.get ref = loaded.get ref)
    (hmarks : first ≤ marks)
    (hlater : later.Separate mod bound)
    (hanew : (Patcher.anew repository pool marks seed).Separate twin bound)
    (htwins : Mod.Twins pool twin later.world.pool mod)
    {Place : Type} {save : Save Place} (hsave : save.ByContent) (place : Place)
    (lines : List String) :
    let ran := later.runLines save.counted (place, 0) lines mod
    let ranAnew :=
      (Patcher.anew repository pool marks seed).runLines save.counted (place, 0) lines twin
    ran.1 = ranAnew.1 ∧ ran.2.2 = ranAnew.2.2 ∧
      ran.2.1.patched = ranAnew.2.1.patched ∧ ranAnew.2.1.Alike ran.2.1 := by
  intro ran ranAnew
  have hspares := hhistory.spares hheld
  have hfresh : (Patcher.anew repository loaded first seed).Spares
      (Patcher.anew repository pool marks seed) := ⟨rfl, rfl, hpool, hmarks⟩
  have hadmits := hlater.admits hspares hmarked
  have hadmitsAnew := hanew.admits hfresh hmarked
  obtain ⟨horigin, hgather⟩ := origin_congr hadmitsAnew hadmits hspares.repository hspares.seed
    (fun ref href => (hspares.loaded ref href).2.trans (hpool ref href).2.symm) htwins
  obtain ⟨relocation, hmods, hstart⟩ := hadmits.exists_relocation
  obtain ⟨relocationAnew, hmodsAnew, hstartAnew⟩ := hadmitsAnew.exists_relocation
  rw [horigin, hgather, hspares.seed] at hstart
  rw [hgather] at hmods
  obtain ⟨hresult, hplace, hpatchers⟩ :=
    hstart.runPrepared hsave.counted hmods (place, 0) lines { mod := mod.name }
  obtain ⟨hresultAnew, hplaceAnew, hpatchersAnew⟩ :=
    hstartAnew.runPrepared hsave.counted hmodsAnew (place, 0) lines { mod := twin.name }
  rw [htwins.name] at hresult hplace hpatchers
  have hran : ran = later.reset.runPrepared save.counted (place, 0) lines mod
      { mod := twin.name } := by
    rw [← htwins.name]
    rfl
  have halike : ranAnew.2.1.Alike ran.2.1 := by
    rw [hran]
    exact Patcher.alike_of_patchers hpatchersAnew hpatchers
  refine ⟨?_, ?_, halike.patched_eq, halike⟩
  · rw [hran]
    exact hresult.trans hresultAnew.symm
  · rw [hran]
    exact hplace.trans hplaceAnew.symm

/-- The patcher that has loaded the weapon, made anew. -/
def armourerAnew : Patcher :=
  Patcher.anew armourer.repository armoury.1 Binary64.documentMark 7

/-- Saving that does nothing. -/
def savedNowhere : Save Unit :=
  fun _ _ place => (.ok [], place)

/-- The patcher after a script that has failed. -/
def armourerLater : Patcher :=
  (armourerAnew.runLines savedNowhere () blunting sharper).2.1

/-- The only record of the mod that is patched next. -/
def whetstone : Record :=
  { id := "1-tools", kind := "TOOL", mod := "tools", isNew := true
    fields := [(.str "grit", .int 400)] }

/-- The mod that is patched next, with its record at a place. -/
def tools (place : RecordRef) : Mod :=
  { name := "tools", records := [place] }

/-- The patcher with the record of that mod. -/
def Patcher.withWhetstone (patcher : Patcher) : Patcher :=
  { patcher with world := { patcher.world with pool := patcher.world.pool.add whetstone } }

/-- A script that looks the weapons up, draws a number and changes them. -/
def grinding : List String :=
  ["weapons := (all)(A:WEAPON|FieldExist(\"damage\"))", "grit := RandomBetweenInts(1, 9)",
    "weapons -> SetField(\"damage\", grit)"]

theorem spares_withWhetstone {patcher : Patcher}
    (hheld : ∀ ref ∈ patcher.repository.places, patcher.world.pool.Holds ref) :
    patcher.Spares patcher.withWhetstone :=
  ⟨rfl, rfl, fun ref href => Pool.keptIn_add _ whetstone ref (hheld ref href), Nat.le_refl _⟩

theorem separate_tools {patcher : Patcher}
    (hheld : ∀ ref ∈ patcher.repository.places, patcher.world.pool.Holds ref)
    (hmarks : Binary64.documentMark ≤ patcher.world.marks) :
    patcher.withWhetstone.Separate (tools patcher.world.pool.nextRef)
      Binary64.documentMark := by
  have hlast : patcher.withWhetstone.world.pool.get patcher.world.pool.nextRef = whetstone :=
    Pool.get_add_nextRef patcher.world.pool whetstone
  refine ⟨hmarks, ?_, ?_, ?_, List.nodup_singleton _⟩ <;> intro own hown <;>
    obtain rfl := List.mem_singleton.mp hown
  · exact patcher.world.pool.holds_add_nextRef whetstone
  · rw [hlast]
    exact fun _ _ => rfl
  · exact fun hloaded => patcher.world.pool.not_holds_nextRef (hheld _ hloaded)

theorem twins_tools (pool pool' : Pool) :
    Mod.Twins (pool.add whetstone) (tools pool.nextRef) (pool'.add whetstone)
      (tools pool'.nextRef) := by
  refine ⟨rfl, rfl, rfl, rfl, ?_⟩
  rw [tools, tools, List.map_singleton, List.map_singleton, Pool.get_add_nextRef,
    Pool.get_add_nextRef]

theorem grinding_after_blunting :
    let ran := armourerLater.withWhetstone.runLines savedNowhere.counted ((), 0) grinding
      (tools armourerLater.world.pool.nextRef)
    let ranAnew := (Patcher.anew armourer.repository (armoury.1.add whetstone)
      Binary64.documentMark 7).runLines savedNowhere.counted ((), 0) grinding
        (tools armoury.1.nextRef)
    ran.1 = ranAnew.1 ∧ ran.2.2 = ranAnew.2.2 ∧
      ran.2.1.patched = ranAnew.2.1.patched ∧ ranAnew.2.1.Alike ran.2.1 := by
  have hplaces : armourer.repository.places = [⟨0⟩] := rfl
  have hheld : ∀ ref ∈ armourer.repository.places, armoury.1.Holds ref := by
    rw [hplaces]
    intro ref href
    obtain rfl := List.mem_singleton.mp href
    exact Nat.zero_lt_one
  have hmarked : ∀ ref ∈ armourer.repository.places,
      (armoury.1.get ref).MarkedWithin Binary64.documentMark := by
    rw [hplaces]
    intro ref href mark hmark
    obtain rfl := List.mem_singleton.mp href
    rfl
  have hsharper : ∀ own ∈ sharper.records, own ∉ armourerAnew.repository.places :=
    fun _ hown => nomatch hown
  have hhistory : armourerAnew.History armourerLater := by
    rw [armourerLater]
    exact Patcher.History.run .start hsharper savedNowhere () blunting
  -- From here on, what the first run has led to does not matter.
  generalize armourerLater = later at hhistory ⊢
  have hspares := hhistory.spares hheld
  have hlaterHeld : ∀ ref ∈ later.repository.places, later.world.pool.Holds ref :=
    fun ref href => (hspares.loaded ref (hspares.repository ▸ href)).1
  have hkept : ∀ ref ∈ armourer.repository.places,
      (armoury.1.add whetstone).Holds ref ∧
        (armoury.1.add whetstone).get ref = armoury.1.get ref :=
    fun ref href => Pool.keptIn_add _ whetstone ref (hheld ref href)
  have hanew : (Patcher.anew armourer.repository (armoury.1.add whetstone)
      Binary64.documentMark 7).Separate (tools armoury.1.nextRef) Binary64.documentMark :=
    @separate_tools armourerAnew hheld (Nat.le_refl _)
  have hsaved : savedNowhere.ByContent := fun _ _ _ _ _ => rfl
  have hready : armourerAnew.History later.withWhetstone :=
    .outside hhistory (spares_withWhetstone hlaterHeld)
  have hseparate := separate_tools hlaterHeld hspares.marks
  have htwins := twins_tools armoury.1 later.world.pool
  exact runLines_after_history hheld hmarked hready hkept (Nat.le_refl _) hseparate hanew htwins
    hsaved () grinding

end Patchwork
