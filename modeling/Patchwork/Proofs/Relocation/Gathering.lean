import Patchwork.Proofs.Relocation.Scripts
import Patchwork.Proofs.Runs.LoadedMods

/-!
# Gathering what a run starts from

A run starts from the loaded mods and the mod that is patched.  Their records,
gathered in a pool of their own, make an origin from which the run can be relocated
to the place where it really happens.  The origin depends on nothing but the content
of the records, so two runs from records of the same content have one origin.
-/

namespace Patchwork

/-- Whether all marks in a record have been given by the time the last one given is
`bound`: changing later marks makes no difference to it. -/
def Record.MarkedWithin (bound : Nat) (record : Record) : Prop :=
  ∀ mark : Nat → Nat, (∀ given ≤ bound, mark given = given) → record.remark mark = record

theorem Record.MarkedWithin.mono {bound later : Nat} {record : Record}
    (hmarked : record.MarkedWithin bound) (hlater : bound ≤ later) :
    record.MarkedWithin later :=
  fun mark hmark => hmarked mark fun given hgiven => hmark given (Nat.le_trans hgiven hlater)

/-- The records at some places, in a pool of their own. -/
def Pool.gather (pool : Pool) (places : List RecordRef) : Pool :=
  ⟨(places.map pool.get).toArray⟩

/-- The mod with its records where they are gathered. -/
def Mod.gather (places : List RecordRef) (mod : Mod) : Mod :=
  { mod with records := mod.records.map fun own => ⟨places.idxOf own⟩ }

/-- The loaded mods with their records where they are gathered. -/
def Repository.gather (places : List RecordRef) (repository : Repository) : Repository :=
  ⟨repository.mods.convert id (Mod.gather places)⟩

namespace Relocation

/-! ## From the origin to a pool -/

/-- Where the record gathered at some place is in a pool.  What comes after the
gathered records comes after all records of the pool. -/
def scatter (pool : Pool) (places : List RecordRef) (gathered : RecordRef) : RecordRef :=
  match places[gathered.index]? with
  | some place => place
  | none => ⟨pool.records.size + (gathered.index - places.length)⟩

section

variable {pool : Pool} {places : List RecordRef}

theorem scatter_cases (pool : Pool) (places : List RecordRef) (gathered : RecordRef) :
    (∃ place, places[gathered.index]? = some place ∧ scatter pool places gathered = place) ∨
      ∃ offset, gathered.index = places.length + offset ∧
        scatter pool places gathered = ⟨pool.records.size + offset⟩ := by
  rw [scatter]
  cases hplace : places[gathered.index]? with
  | some place => exact Or.inl ⟨place, rfl, rfl⟩
  | none =>
    have hbeyond := List.getElem?_eq_none_iff.mp hplace
    exact Or.inr ⟨gathered.index - places.length, by omega, rfl⟩

theorem scatter_beyond (pool : Pool) (places : List RecordRef) (offset : Nat) :
    scatter pool places ⟨places.length + offset⟩ = ⟨pool.records.size + offset⟩ := by
  rw [scatter, List.getElem?_eq_none (Nat.le_add_right _ _)]
  simp

theorem scatter_idxOf {place : RecordRef} (hplace : place ∈ places) :
    scatter pool places ⟨places.idxOf place⟩ = place := by
  rw [scatter, List.getElem?_idxOf hplace]

variable (hnodup : places.Nodup) (hheld : ∀ ref ∈ places, pool.Holds ref)

include hnodup hheld

theorem scatter_injective : Function.Injective (scatter pool places) := by
  intro first second hsame
  obtain ⟨place, hfirst, heq⟩ | ⟨offset, hfirst, heq⟩ := scatter_cases pool places first <;>
    obtain ⟨other, hsecond, heq'⟩ | ⟨offset', hsecond, heq'⟩ :=
      scatter_cases pool places second <;>
    rw [heq, heq'] at hsame
  · subst hsame
    obtain ⟨hbound, -⟩ := List.getElem?_eq_some_iff.mp hfirst
    have hindex := (List.getElem?_inj hbound hnodup).mp (hfirst.trans hsecond.symm)
    exact congrArg RecordRef.mk hindex
  · have hholds := hheld place (List.mem_of_getElem? hfirst)
    rw [hsame] at hholds
    exact absurd hholds (by simp [Pool.Holds])
  · have hholds := hheld other (List.mem_of_getElem? hsecond)
    rw [← hsame] at hholds
    exact absurd hholds (by simp [Pool.Holds])
  · have hoffset : offset = offset' := by
      have hindex := congrArg RecordRef.index hsame
      dsimp only at hindex
      omega
    exact congrArg RecordRef.mk (by rw [hfirst, hsecond, hoffset])

/-- From gathered records to where they are in a pool, with the marks that are given
from `bound` on moved beyond all that have been given. -/
def gathering {bound marks : Nat} (hbound : bound ≤ marks) : Relocation where
  loaded := []
  pristine := {}
  ref := scatter pool places
  mark := fun given => if given ≤ bound then given else marks + (given - bound)
  ref_injective := scatter_injective hnodup hheld
  mark_injective := by
    intro first second hsame
    dsimp only at hsame
    split at hsame <;> split at hsame <;> omega
  mark_zero := if_pos (Nat.zero_le bound)

theorem pools_gather {bound marks : Nat} (hbound : bound ≤ marks)
    (hmarked : ∀ ref ∈ places, (pool.get ref).MarkedWithin bound) :
    (gathering hnodup hheld hbound).Pools (pool.gather places) pool where
  get := by
    intro ref
    change pool.get (scatter pool places ref) = _
    obtain ⟨place, hplace, heq⟩ | ⟨offset, hoffset, heq⟩ := scatter_cases pool places ref
    · have hgathered : (pool.gather places).get ref = pool.get place := by
        simp [Pool.gather, Pool.get, hplace]
      rw [heq, hgathered]
      refine (hmarked place (List.mem_of_getElem? hplace) _ fun given hgiven => ?_).symm
      exact if_pos hgiven
    · have hgathered : ¬ (pool.gather places).Holds ref := by
        simp [Pool.Holds, Pool.gather, hoffset]
      have hbeyond : ¬ pool.Holds ⟨pool.records.size + offset⟩ := by simp [Pool.Holds]
      rw [heq, Pool.get_of_not_holds hgathered, Pool.get_of_not_holds hbeyond,
        Record.remark_default]
  next := by
    intro offset
    have hsize : (pool.gather places).records.size = places.length := by simp [Pool.gather]
    rw [hsize]
    exact scatter_beyond pool places offset
  kept := fun _ hloaded => nomatch hloaded

theorem mod_gather {bound marks : Nat} (hbound : bound ≤ marks) {mod : Mod}
    (hrecords : ∀ own ∈ mod.records, own ∈ places) :
    (mod.gather places).relocate (gathering hnodup hheld hbound) = mod := by
  have hsame : (mod.gather places).records.map (gathering hnodup hheld hbound).ref =
      mod.records := by
    rw [Mod.gather, List.map_map]
    refine (List.map_congr_left fun own hown => ?_).trans (List.map_id _)
    exact scatter_idxOf (hrecords own hown)
  rw [Mod.relocate, hsame]
  rfl

theorem repository_gather {bound marks : Nat} (hbound : bound ≤ marks)
    {repository : Repository} (hplaces : ∀ ref ∈ repository.places, ref ∈ places) :
    (repository.gather places).relocate (gathering hnodup hheld hbound) = repository := by
  have hmods : ((repository.gather places).mods.map
      (Prod.map id (Mod.relocate (gathering hnodup hheld hbound)))) = repository.mods := by
    rw [Repository.gather, Entries.convert, List.map_map]
    refine (List.map_congr_left fun entry hentry => ?_).trans (List.map_id _)
    refine Prod.ext rfl (mod_gather hnodup hheld hbound fun own hown => hplaces own ?_)
    exact Repository.mem_places.mpr ⟨entry.2, List.mem_map_of_mem hentry, hown⟩
  rw [Repository.relocate, Entries.convert, hmods]

end

end Relocation

/-! ## The origin of a run -/

/-- The places of the records a run on a mod starts from: those of the loaded mods, each
once, and those of the mod. -/
def Repository.placesWith (repository : Repository) (mod : Mod) : List RecordRef :=
  distinct repository.places ++ mod.records

/-- A mod that can be patched: its records are in the pool, each once and apart from
the loaded mods, and no mark in them or in the loaded records is later than `bound`. -/
structure Patcher.Admits (patcher : Patcher) (mod : Mod) (bound : Nat) : Prop where
  given : bound ≤ patcher.world.marks
  loadedHeld : ∀ ref ∈ patcher.repository.places, patcher.world.pool.Holds ref
  loadedMarked : ∀ ref ∈ patcher.repository.places,
    (patcher.world.pool.get ref).MarkedWithin bound
  held : ∀ own ∈ mod.records, patcher.world.pool.Holds own
  marked : ∀ own ∈ mod.records, (patcher.world.pool.get own).MarkedWithin bound
  apart : ∀ own ∈ mod.records, own ∉ patcher.repository.places
  once : mod.records.Nodup

/-- A patcher that has gathered nothing but what a run on a mod starts from. -/
def Patcher.origin (patcher : Patcher) (mod : Mod) (bound : Nat) : Patcher :=
  { repository := patcher.repository.gather (patcher.repository.placesWith mod)
    seed := patcher.seed
    world := {
      pool := patcher.world.pool.gather (patcher.repository.placesWith mod)
      marks := bound } }

namespace Patcher.Admits

variable {patcher : Patcher} {mod : Mod} {bound : Nat}

theorem nodup_placesWith (hadmits : patcher.Admits mod bound) :
    (patcher.repository.placesWith mod).Nodup := by
  refine List.nodup_append.mpr ⟨nodup_distinct _, hadmits.once, ?_⟩
  intro first hfirst second hsecond hsame
  exact hadmits.apart second hsecond (hsame ▸ mem_distinct.mp hfirst)

theorem forall_placesWith {statement : RecordRef → Prop}
    (hloaded : ∀ ref ∈ patcher.repository.places, statement ref)
    (hown : ∀ own ∈ mod.records, statement own) :
    ∀ ref ∈ patcher.repository.placesWith mod, statement ref := by
  intro ref href
  rcases List.mem_append.mp href with href | href
  · exact hloaded ref (mem_distinct.mp href)
  · exact hown ref href

/-- The run of a script on a mod is a relocated run of it from the origin. -/
theorem exists_relocation (hadmits : patcher.Admits mod bound) :
    ∃ relocation : Relocation,
      relocation.Mods (mod.gather (patcher.repository.placesWith mod)) mod ∧
      relocation.Patchers (patcher.origin mod bound).repository patcher.seed
        ((patcher.origin mod bound).reset.start
          (mod.gather (patcher.repository.placesWith mod)))
        (patcher.reset.start mod) := by
  have hheld := forall_placesWith hadmits.loadedHeld hadmits.held
  let relocation := Relocation.gathering hadmits.nodup_placesWith hheld hadmits.given
  have hmods : relocation.Mods (mod.gather (patcher.repository.placesWith mod)) mod := by
    refine ⟨(Relocation.mod_gather _ _ _ fun own hown => ?_).symm,
      fun _ _ hloaded => nomatch hloaded⟩
    exact List.mem_append_right _ hown
  refine ⟨relocation, hmods, ?_⟩
  exact {
    mods := rfl
    relocated := by
      refine (Relocation.repository_gather _ _ _ fun ref href => ?_).symm
      exact List.mem_append_left _ (mem_distinct.mpr href)
    seed := rfl
    environments := ⟨rfl, ⟨(fun _ hmem => nomatch hmem), (fun _ hmem => nomatch hmem)⟩⟩
    worlds := {
      pools := Relocation.pools_gather _ _ _
        (forall_placesWith hadmits.loadedMarked hadmits.marked)
      active := Option.Rel.some hmods
      draws := rfl
      stopping := rfl
      marks := by
        intro offset
        change (if bound + 1 + offset ≤ bound then _ else _) = _
        rw [if_neg (by omega)]
        change patcher.world.marks + (bound + 1 + offset - bound) = patcher.world.marks + 1 + offset
        omega }
    listed := rfl }

end Patcher.Admits

end Patchwork
