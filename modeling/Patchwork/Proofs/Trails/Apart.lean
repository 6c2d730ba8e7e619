import Patchwork.Proofs.Trails.Edits
import Patchwork.Proofs.Trails.Keeping

/-!
# Records that are told apart

A run makes three sorts of records: merged records and overrides, which have identifiers
that there are already, and clones, whose identifiers are numbered with the next number of
the mod being patched.  If that mod knows each identifier of a loaded mod that is numbered
like its own, a clone that is in it shares its identifier with no other record that the run
has made, so that no edit of another record is written to it.
-/

namespace Patchwork

/-! ## What a move adds -/

/-- What comes into the pool and the mod: records with identifiers that are taken, which
stay out of the mod, and records of the mod with identifiers it has not known.  Those of them
that are flagged new are numbered and have an identifier each. -/
structure Mod.Grows (taken : String → Prop) (pool : Pool) (mod : Mod) (later : Pool)
    (patched : Mod) : Prop where
  retains : pool.Retains later
  onward : mod.Onward pool patched
  records : ∀ own ∈ patched.records,
    own ∈ mod.records ∨ ¬ pool.Holds own ∧ later.Holds own
  added : ∀ ref, later.Holds ref → ¬ pool.Holds ref →
    taken (later.get ref).id ∧ ref ∉ patched.records ∨
      ref ∈ patched.records ∧ ¬ mod.Knows pool (later.get ref).id
  clones : ∀ own ∈ patched.records, ¬ pool.Holds own → (later.get own).isNew = true →
    (∃ number : Nat, (later.get own).id = integerText number ++ "-" ++ mod.name) ∧
      ∀ ref, later.Holds ref → ¬ pool.Holds ref → (later.get ref).id = (later.get own).id →
        ref = own

namespace Mod.Grows

variable {taken : String → Prop} {pool later : Pool} {mod patched : Mod}

/-- Nothing is added. -/
theorem of_retains (hretains : pool.Retains later) (honward : mod.Onward pool patched)
    (hheld : ∀ own ∈ mod.records, pool.Holds own)
    (hrecords : ∀ own ∈ patched.records, own ∈ mod.records)
    (hplaces : ∀ ref, later.Holds ref → pool.Holds ref) :
    mod.Grows taken pool later patched where
  retains := hretains
  onward := honward
  records own hown := Or.inl (hrecords own hown)
  added ref href hnew := absurd (hplaces ref href) hnew
  clones own hown hnew := absurd (hheld own (hrecords own hown)) hnew

/-- An override of an identifier that the mod does not know. -/
theorem of_made {target : RecordRef} (hheld : ∀ own ∈ mod.records, pool.Holds own)
    (hundeleted : (pool.get target).id ∉ mod.deleted)
    (hnone : mod.find? pool (pool.get target).id = none) :
    mod.Grows taken pool
      (pool.add {
        id := (pool.get target).id
        kind := (pool.get target).kind
        name := (pool.get target).name
        mod := mod.name })
      (mod.addRecord pool.nextRef) where
  retains := (pool.keptIn_add _).retains
  onward := ⟨rfl, List.Subset.refl _, fun own hown _ => Or.inl (List.mem_append_left _ hown)⟩
  records own hown := by
    refine (List.mem_append.mp hown).imp_right fun hlast => ?_
    rw [List.mem_singleton.mp hlast]
    exact ⟨pool.not_holds_nextRef, pool.holds_add_nextRef _⟩
  added ref href hnew := by
    rw [(Pool.holds_add_iff.mp href).resolve_left hnew, Pool.get_add_nextRef]
    refine Or.inr ⟨List.mem_append_right _ (List.mem_singleton_self _), ?_⟩
    rintro (⟨own, hown, hid⟩ | hdeleted)
    · exact Mod.find?_eq_none.mp hnone own hown hid
    · exact hundeleted hdeleted
  clones own hown hnew hflag := by
    rcases List.mem_append.mp hown with hold | hlast
    · exact absurd (hheld own hold) hnew
    · rw [List.mem_singleton.mp hlast, Pool.get_add_nextRef] at hflag
      cases hflag

/-- Merged records have identifiers of the loaded mods. -/
theorem of_placed {repository : Repository} {mods : List Mod} (kind : String)
    (hmods : mods ⊆ repository.list) (hheld : ∀ own ∈ mod.records, pool.Holds own)
    (hplaces : ∀ place ∈ repository.places, taken (pool.get place).id) :
    mod.Grows taken pool
      ((Merge.mergeAll pool (Repository.collect pool kind mods)).place pool).1 mod where
  retains := (Merge.keptIn_place _ pool).retains
  onward := Mod.Onward.refl pool mod
  records own hown := Or.inl hown
  added ref href hnew := by
    refine Or.inl ⟨?_, fun hown => hnew (hheld ref hown)⟩
    have hget := pool.get_addAll
      ((Merge.mergeAll pool (Repository.collect pool kind mods)).merged.map Prod.snd)
    obtain ⟨entry, hentry, hrecord⟩ := List.mem_map.mp
      (hget ▸ List.mem_map_of_mem (Pool.mem_addAll_of_holds href hnew))
    obtain ⟨id, hid, hmerged⟩ := List.mem_filterMap.mp (Merge.merged_mergeAll .. ▸ hentry)
    have htaken : taken entry.2.id := by
      rw [Merge.id_of_mergedVersion? hmerged]
      obtain ⟨member, hmember, rfl⟩ := List.mem_map.mp (mem_distinct.mp hid)
      obtain ⟨mod, hmod, hcollected⟩ := List.mem_flatMap.mp hmember
      obtain ⟨place, hplace, rfl⟩ := List.mem_map.mp hcollected
      exact hplaces place (Repository.mem_places.mpr
        ⟨mod, hmods hmod, (List.mem_filter.mp hplace).1⟩)
    rw [hrecord] at htaken
    exact htaken
  clones own hown hnew := absurd (hheld own hown) hnew

/-- Clones are numbered with numbers beyond all that the mod knows. -/
theorem of_cloned {source : Record} {count : Nat} {clones : List RecordRef}
    {before after : Workbench} (hheld : ∀ own ∈ before.mod.records, before.pool.Holds own)
    (hclones : Work.Clones source count (before.mod.nextIdNumber before.pool) clones before
      after) :
    before.mod.Grows taken before.pool after.pool
      { before.mod with records := before.mod.records ++ clones } where
  retains := hclones.kept.retains
  onward := ⟨rfl, List.Subset.refl _, fun own hown _ => Or.inl (List.mem_append_left _ hown)⟩
  records own hown := (List.mem_append.mp hown).imp_right (hclones.fresh own)
  added ref href hnew := by
    have hclone := hclones.only ref href hnew
    refine Or.inr ⟨List.mem_append_right _ hclone, fun hknows => ?_⟩
    obtain ⟨-, -, number, hnumber, hid⟩ := hclones.of_mem hclone
    rw [hid] at hknows
    have hless := Mod.idNumber_lt_next hknows (Mod.idNumber?_numbered number before.mod.name)
    exact Nat.not_lt.mpr hnumber hless
  clones own hown hnew _ := by
    rcases List.mem_append.mp hown with hold | hclone
    · exact absurd (hheld own hold) hnew
    · obtain ⟨-, -, number, -, hid⟩ := hclones.of_mem hclone
      refine ⟨⟨number, hid⟩, fun ref href hfresh hsame => ?_⟩
      exact List.inj_on_of_nodup_map hclones.distinct (hclones.only ref href hfresh) hclone hsame

end Mod.Grows

/-! ## The invariant -/

/-- Of the records from a place on, a record of the mod that is flagged new is the only one
with its identifier, and no loaded mod has the identifier. -/
structure Mod.Apart (taken : String → Prop) (first : Nat) (pool : Pool) (mod : Mod) : Prop where
  held : ∀ own ∈ mod.records, pool.Holds own
  numbered : ∀ number : Nat, taken (integerText number ++ "-" ++ mod.name) →
    mod.Knows pool (integerText number ++ "-" ++ mod.name)
  known : ∀ ref, pool.Holds ref → first ≤ ref.index →
    taken (pool.get ref).id ∨ mod.Knows pool (pool.get ref).id
  untaken : ∀ own ∈ mod.records, first ≤ own.index → (pool.get own).isNew = true →
    ¬ taken (pool.get own).id
  alone : ∀ own ∈ mod.records, first ≤ own.index → (pool.get own).isNew = true →
    ∀ ref, pool.Holds ref → first ≤ ref.index → (pool.get ref).id = (pool.get own).id → ref = own

theorem Mod.Knows.onward {pool later : Pool} {mod patched : Mod} {id : String}
    (hknows : mod.Knows pool id) (hheld : ∀ own ∈ mod.records, pool.Holds own)
    (hretains : pool.Retains later) (honward : mod.Onward pool patched) :
    patched.Knows later id := by
  rcases hknows with ⟨own, hown, rfl⟩ | hdeleted
  · refine (honward.records own hown (hheld own hown)).imp_left fun hkept => ?_
    exact ⟨own, hkept, hretains.id own (hheld own hown)⟩
  · exact Or.inr (honward.deleted hdeleted)

namespace Mod.Apart

variable {taken : String → Prop} {first : Nat} {pool later : Pool} {mod patched : Mod}

/-- What a move may add does not mix the records up. -/
theorem grow (hapart : mod.Apart taken first pool) (hgrows : mod.Grows taken pool later patched) :
    patched.Apart taken first later := by
  have hknows : ∀ id, mod.Knows pool id → patched.Knows later id := fun _ hknown =>
    hknown.onward hapart.held hgrows.retains hgrows.onward
  have holdOwn : ∀ own ∈ patched.records, pool.Holds own → own ∈ mod.records :=
    fun own hown hheld => (hgrows.records own hown).resolve_right fun hnew => hnew.1 hheld
  -- A new record of the mod that was not there before is a clone with an unknown number.
  have hunknown : ∀ own ∈ patched.records, ¬ pool.Holds own → (later.get own).isNew = true →
      ¬ taken (later.get own).id ∧ ¬ mod.Knows pool (later.get own).id := by
    intro own hown hnew hflag
    have hheld := (hgrows.records own hown).resolve_left fun hold => hnew (hapart.held own hold)
    have hstrange := ((hgrows.added own hheld.2 hnew).resolve_left fun hout => hout.2 hown).2
    obtain ⟨⟨number, hid⟩, -⟩ := hgrows.clones own hown hnew hflag
    refine ⟨fun htaken => hstrange ?_, hstrange⟩
    rw [hid] at htaken ⊢
    exact hapart.numbered number htaken
  constructor
  case held =>
    intro own hown
    rcases hgrows.records own hown with hold | hnew
    · exact hgrows.retains.holds own (hapart.held own hold)
    · exact hnew.2
  case numbered =>
    intro number htaken
    rw [hgrows.onward.name] at htaken ⊢
    exact hknows _ (hapart.numbered number htaken)
  case known =>
    intro ref href hfirst
    by_cases hheld : pool.Holds ref
    · rw [hgrows.retains.id ref hheld]
      exact (hapart.known ref hheld hfirst).imp_right (hknows _)
    · rcases hgrows.added ref href hheld with ⟨htaken, -⟩ | ⟨hown, -⟩
      · exact Or.inl htaken
      · exact Or.inr (Or.inl ⟨ref, hown, rfl⟩)
  case untaken =>
    intro own hown hfirst hflag
    by_cases hheld : pool.Holds own
    · rw [hgrows.retains.isNew own hheld] at hflag
      rw [hgrows.retains.id own hheld]
      exact hapart.untaken own (holdOwn own hown hheld) hfirst hflag
    · exact (hunknown own hown hheld hflag).1
  case alone =>
    intro own hown hfirst hflag ref href hplace hsame
    by_cases hheld : pool.Holds own
    · have hold := holdOwn own hown hheld
      rw [hgrows.retains.isNew own hheld] at hflag
      rw [hgrows.retains.id own hheld] at hsame
      by_cases hbefore : pool.Holds ref
      · rw [hgrows.retains.id ref hbefore] at hsame
        exact hapart.alone own hold hfirst hflag ref hbefore hplace hsame
      · have hadded := hgrows.added ref href hbefore
        rw [hsame] at hadded
        rcases hadded with ⟨htaken, -⟩ | ⟨-, hstrange⟩
        · exact absurd htaken (hapart.untaken own hold hfirst hflag)
        · exact absurd (Or.inl ⟨own, hold, rfl⟩) hstrange
    · by_cases hbefore : pool.Holds ref
      · obtain ⟨huntaken, hstrange⟩ := hunknown own hown hheld hflag
        rw [hgrows.retains.id ref hbefore] at hsame
        rw [← hsame] at huntaken hstrange
        exact absurd (hapart.known ref hbefore hplace) (not_or.mpr ⟨huntaken, hstrange⟩)
      · exact (hgrows.clones own hown hheld hflag).2 ref href hbefore hsame

/-- A mod whose records all lie before the first place. -/
theorem of_held {start : Pool} (hheld : ∀ own ∈ mod.records, start.Holds own)
    (hnumbered : ∀ number : Nat, taken (integerText number ++ "-" ++ mod.name) →
      mod.Knows start (integerText number ++ "-" ++ mod.name)) :
    mod.Apart taken start.records.size start where
  held := hheld
  numbered := hnumbered
  known _ href hfirst := absurd href (Nat.not_lt.mpr hfirst)
  untaken own hown hfirst := absurd (hheld own hown) (Nat.not_lt.mpr hfirst)
  alone own hown hfirst := absurd (hheld own hown) (Nat.not_lt.mpr hfirst)

/-- The own version of a record that a run has made is a new record that the run has made
only if it is the record itself. -/
theorem eq_of_find? (hapart : mod.Apart taken first pool) (hempty : taken "")
    {own target : RecordRef} (hfind : mod.find? pool (pool.get target).id = some own)
    (htarget : first ≤ target.index) (hfirst : first ≤ own.index)
    (hnew : (pool.get own).isNew = true) : own = target := by
  obtain ⟨hown, hid⟩ := Mod.mem_of_find? hfind
  by_cases hheld : pool.Holds target
  · exact (hapart.alone own hown hfirst hnew target hheld htarget hid.symm).symm
  · have hnothing : (pool.get target).id = "" := by
      rw [Pool.get_of_not_holds hheld]
      rfl
    have huntaken := hapart.untaken own hown hfirst hnew
    rw [hid, hnothing] at huntaken
    exact absurd hempty huntaken

end Mod.Apart

/-! ## Moves -/

/-- The loaded mods have identifiers that are taken only, and the mod being patched tells the
records of the run apart. -/
structure World.Apart (repository : Repository) (taken : String → Prop) (first : Nat)
    (world : World) : Prop where
  empty : taken ""
  places : ∀ place ∈ repository.places,
    world.pool.Holds place ∧ taken (world.pool.get place).id
  active : ∀ mod, world.active = some mod → mod.Apart taken first world.pool

namespace Mod.Apart

variable {taken : String → Prop} {first : Nat} {pool : Pool} {mod : Mod}

theorem modify (hapart : mod.Apart taken first pool) {edit : Record → Record}
    (hedit : Record.Retained edit) (ref : RecordRef) :
    mod.Apart taken first (pool.modify ref edit) :=
  hapart.grow (.of_retains (Pool.retains_modify hedit pool ref) (Mod.Onward.refl pool mod)
    hapart.held (fun _ hown => hown) fun _ => Pool.holds_modify.mp)

/-- An edit does not mix the records up. -/
theorem leads (hapart : mod.Apart taken first pool) {target : RecordRef} {edit : Edit}
    {later : Pool} {patched : Mod} (hleads : edit.Leads target pool mod later patched) :
    patched.Apart taken first later := by
  cases hleads with
  | deleted | skipped => exact hapart
  | @wrote made own reached _ hwrites hundeleted hreaches =>
    have hreached : patched.Apart taken first reached := by
      cases hreaches with
      | found hfind => exact hapart
      | made hnone => exact hapart.grow (.of_made hapart.held hundeleted hnone)
    have hedit := made.retained_apply
    unfold Pool.writeBoth
    split
    · exact hreached.modify hedit own
    · exact (hreached.modify hedit own).modify hedit target
  | @dropped own hedit hundeleted hfind hnew =>
    have hremove := Record.retained_setField Record.removedField (.bool true)
    have hmodified := hapart.modify hremove target
    refine hmodified.grow (.of_retains (Pool.Retains.refl _) ?_ hmodified.held
      (fun _ => List.mem_of_mem_erase) fun _ => id)
    refine ⟨rfl, List.subset_append_left _ _, fun other hother _ => ?_⟩
    by_cases hsame : other = own
    · right
      rw [hsame, Pool.read_modify Record.id hremove.id, (Mod.mem_of_find? hfind).2]
      exact List.mem_append_right _ (List.mem_singleton_self _)
    · exact Or.inl ((List.mem_erase_of_ne hsame).mpr hother)

end Mod.Apart

namespace World.Apart

variable {repository : Repository} {taken : String → Prop} {first : Nat} {before after : World}

/-- A change to the header does not mix the records up. -/
theorem header (hapart : before.Apart repository taken first) (alter : Mod → Mod)
    (halter : ∀ mod, (alter mod).name = mod.name ∧ (alter mod).records = mod.records ∧
      (alter mod).deleted = mod.deleted)
    (hyields : (Eval.onActive (modify fun bench : Workbench =>
      { bench with mod := alter bench.mod } : Work PUnit)).Yields before () after) :
    ∀ mod, after.active = some mod → mod.Apart taken first after.pool := by
  obtain ⟨mod, bench, hmod, hbench, rfl⟩ := Eval.yields_onActive.mp hyields
  obtain rfl := Work.yields_modify.mp hbench
  obtain ⟨hname, hrecords, hdeleted⟩ := halter mod
  rintro _ ⟨⟩
  have hbefore := hapart.active mod hmod
  refine hbefore.grow (.of_retains (Pool.Retains.refl _) ?_ hbefore.held
    (fun _ hown => hrecords ▸ hown) fun _ => id)
  exact ⟨hname, hdeleted ▸ List.Subset.refl _, fun own hown _ => Or.inl (hrecords ▸ hown)⟩

/-- No move mixes the records up. -/
theorem move {move : Move} (hapart : before.Apart repository taken first)
    (hmove : move.Leads repository before after) : after.Apart repository taken first := by
  have hretains := (Move.onward hmove).retains
  refine ⟨hapart.empty, fun place hplace => ?_, ?_⟩
  · obtain ⟨hheld, htaken⟩ := hapart.places place hplace
    rw [hretains.id place hheld]
    exact ⟨hretains.holds place hheld, htaken⟩
  cases move with
  | rested =>
    obtain ⟨hpool, hactive⟩ := hmove
    rw [hpool, hactive]
    exact hapart.active
  | placed mods kind =>
    obtain ⟨hmods, hactive, hpool⟩ := hmove
    rw [hpool, hactive]
    intro mod hmod
    have hbefore := hapart.active mod hmod
    exact hbefore.grow (.of_placed kind hmods hbefore.held fun place hplace =>
      (hapart.places place hplace).2)
  | edited target edit =>
    obtain ⟨mod, bench, hmod, hbench, rfl⟩ := Eval.yields_onActive.mp hmove
    rintro _ ⟨⟩
    exact (hapart.active mod hmod).leads (Edit.leads_of_yields hbench)
  | cloned source count =>
    obtain ⟨clones, hyields⟩ := hmove
    obtain ⟨mod, hmod, hafter, early, late, hearly, rfl, hlate, hclones⟩ :=
      World.clones_of_yields hyields
    intro patched hpatched
    obtain rfl := Option.some.inj (hafter.symm.trans hpatched)
    have hbefore := hapart.active early.mod hmod
    rw [← hearly] at hbefore hclones
    rw [← hlate]
    exact hbefore.grow (.of_cloned hbefore.held hclones)
  | depended entries =>
    exact hapart.header (Mod.addDependencies · entries) (fun _ => ⟨rfl, rfl, rfl⟩) hmove
  | referred entries =>
    exact hapart.header (Mod.addReferences · entries) (fun _ => ⟨rfl, rfl, rfl⟩) hmove

end World.Apart

/-! ## The start of a run -/

/-- An identifier that some loaded mod has, or that of a place that is not in use. -/
def Repository.Takes (repository : Repository) (pool : Pool) (id : String) : Prop :=
  id = "" ∨ ∃ place ∈ repository.places, (pool.get place).id = id

/-- A mod has or had each identifier of a loaded mod that is numbered like its own. -/
def Mod.KnowsNumbered (mod : Mod) (repository : Repository) (pool : Pool) : Prop :=
  ∀ place ∈ repository.places, ∀ number : Nat,
    (pool.get place).id = integerText number ++ "-" ++ mod.name →
      mod.Knows pool (pool.get place).id

theorem World.Apart.start {repository : Repository} {world : World} {pool : Pool} {mod : Mod}
    (hplaces : ∀ place ∈ repository.places, pool.Holds place)
    (hheld : ∀ own ∈ mod.records, pool.Holds own) (hnumbered : mod.KnowsNumbered repository pool)
    (hpool : world.pool = pool) (hactive : world.active = some mod) :
    world.Apart repository (repository.Takes pool) pool.records.size where
  empty := Or.inl rfl
  places place hplace := by
    rw [hpool]
    exact ⟨hplaces place hplace, Or.inr ⟨place, hplace, rfl⟩⟩
  active other hother := by
    obtain rfl := Option.some.inj (hactive.symm.trans hother)
    rw [hpool]
    refine .of_held hheld fun number htaken => ?_
    rcases htaken with hempty | ⟨place, hplace, hid⟩
    · have hread := Mod.idNumber?_numbered number mod.name
      rw [hempty] at hread
      cases hread
    · rw [← hid]
      exact hnumbered place hplace number hid

end Patchwork
