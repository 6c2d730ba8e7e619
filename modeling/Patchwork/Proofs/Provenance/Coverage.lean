import Patchwork.Proofs.Provenance.Headers
import Patchwork.Proofs.Provenance.Runs

/-!
# The header covers what a run has touched

Between any two lines of a run of which none has failed, the dependencies of the mod
being patched name the mods its overrides come from, and its references name those the
sources of its links come from.  Nothing else has been added to either list than the mods
of the groups that procedures were applied to.
-/

namespace Patchwork

/-! ## Header entries -/

theorem Plain.contains_str_iff {header : List Plain} {name : String} :
    header.contains (.str name) = true ↔ .str name ∈ header := by
  simp only [List.contains_eq_any_beq, List.any_eq_true, Plain.str_beq_iff, exists_eq_right]

theorem distinct_eq_self {Item : Type} [BEq Item] [LawfulBEq Item] {items : List Item}
    (honce : items.Nodup) : distinct items = items := by
  induction items with
  | nil => rfl
  | cons first rest ih =>
    obtain ⟨hfirst, hrest⟩ := List.nodup_cons.mp honce
    rw [distinct, ih hrest, List.filter_eq_self.mpr]
    intro other hother
    rw [Bool.not_eq_true', beq_eq_false_iff_ne]
    rintro rfl
    exact hfirst hother

/-- The names, each once, that are neither the mod's own nor in its header. -/
def newcomers (own : String) (header : List Plain) (names : List String) : List String :=
  (distinct names).filter fun name => name != own && !header.contains (.str name)

theorem mem_newcomers {own name : String} {header : List Plain} {names : List String} :
    name ∈ newcomers own header names ↔ name ∈ names ∧ name ≠ own ∧ .str name ∉ header := by
  rw [newcomers, List.mem_filter, mem_distinct, Bool.and_eq_true, bne_iff_ne, Bool.not_eq_true',
    ← Bool.not_eq_true, Plain.contains_str_iff]

/-- A name that adds nothing would not be kept if it came again. -/
theorem newcomers_cons_of_known {own name : String} {header : List Plain}
    (hknown : own = name ∨ header.contains (.str name) = true) (rest : List String) :
    newcomers own header (name :: rest) = newcomers own header rest := by
  rw [newcomers, distinct, List.filter_cons_of_neg, List.filter_filter, newcomers]
  · refine List.filter_congr fun other _ => ?_
    by_cases hsame : other = name
    · rcases hknown with rfl | hknown
      · simp [hsame]
      · simp [hsame, hknown]
    · simp [hsame]
  · rcases hknown with rfl | hknown
    · simp
    · simp [hknown]

theorem newcomers_cons_of_new {own name : String} {header : List Plain}
    (hnew : ¬ (own = name ∨ header.contains (.str name) = true)) (rest : List String) :
    newcomers own header (name :: rest) =
      name :: newcomers own (header ++ [.str name]) rest := by
  obtain ⟨hown, habsent⟩ := not_or.mp hnew
  rw [newcomers, distinct, List.filter_cons_of_pos, List.filter_filter, newcomers]
  · congr 1
    refine List.filter_congr fun other _ => ?_
    by_cases hsame : other = name
    · simp [hsame, List.contains_eq_any_beq]
    · have hflipped : name ≠ other := fun heq => hsame heq.symm
      simp [hsame, List.contains_eq_any_beq]
  · simp [habsent, Ne.symm hown]

/-- Names of the mods that are added to a header come after it, each once. -/
theorem foldl_addHeaderEntry (own : String) (names : List String) (header : List Plain) :
    (names.map .str).foldl (Mod.addHeaderEntry (.str own)) header =
      header ++ (newcomers own header names).map .str := by
  induction names generalizing header with
  | nil => simp [newcomers, distinct]
  | cons name rest ih =>
    have hentry : Mod.addHeaderEntry (.str own) header (.str name) =
        if own = name ∨ header.contains (.str name) = true then header
        else header ++ [.str name] := by
      simp [Mod.addHeaderEntry]
    rw [List.map_cons, List.foldl_cons, ih, hentry]
    by_cases hknown : own = name ∨ header.contains (.str name) = true
    · rw [if_pos hknown, newcomers_cons_of_known hknown]
    · rw [if_neg hknown, newcomers_cons_of_new hknown, List.map_cons, List.append_assoc,
        List.singleton_append]

namespace Mod

theorem foldl_headerEntries (mod : Mod) (group : Group) (header : List Plain) :
    (Procedure.headerEntries group mod).foldl (addHeaderEntry (.str mod.name)) header =
      ((group.members.map Member.mod).map .str).foldl (addHeaderEntry (.str mod.name)) header := by
  rw [Procedure.headerEntries, foldl_addHeaderEntry, foldl_addHeaderEntry, newcomers, newcomers,
    Group.distinctMods, distinct_eq_self ((nodup_distinct _).filter _), List.filter_filter]
  have hsame : ∀ name : String, ((name != mod.name && !header.contains (.str name)) &&
      some name != some mod.name) = (name != mod.name && !header.contains (.str name)) := by
    intro name
    by_cases hname : name = mod.name <;> simp [hname]
  simp only [hsame]

theorem dependencies_credit (mod : Mod) (deed : Deed) :
    (mod.credit deed).dependencies =
      ((deed.targets.map Member.mod).map .str).foldl (addHeaderEntry (.str mod.name))
        mod.dependencies := by
  cases deed with
  | linked target source => rfl
  | applied procedure targets sources => exact mod.foldl_headerEntries targets _

theorem references_credit (mod : Mod) (deed : Deed) :
    (mod.credit deed).references =
      ((deed.sources.map Member.mod).map .str).foldl (addHeaderEntry (.str mod.name))
        mod.references := by
  cases deed with
  | linked target source => rfl
  | applied procedure targets sources =>
    cases sources with
    | none => rfl
    | some group => exact mod.foldl_headerEntries group _

/-- The dependencies that deeds add are the mods of the targets of procedures. -/
theorem dependencies_credited (mod : Mod) (deeds : List Deed) :
    (mod.credited deeds).dependencies = mod.dependencies ++
      (newcomers mod.name mod.dependencies
        ((deeds.flatMap Deed.targets).map Member.mod)).map .str := by
  rw [← foldl_addHeaderEntry]
  induction deeds generalizing mod with
  | nil => rfl
  | cons deed rest ih =>
    rw [credited_cons, ih, name_credit, dependencies_credit, List.flatMap_cons, List.map_append,
      List.map_append, List.foldl_append]

/-- The references that deeds add are the mods of the sources of procedures. -/
theorem references_credited (mod : Mod) (deeds : List Deed) :
    (mod.credited deeds).references = mod.references ++
      (newcomers mod.name mod.references
        ((deeds.flatMap Deed.sources).map Member.mod)).map .str := by
  rw [← foldl_addHeaderEntry]
  induction deeds generalizing mod with
  | nil => rfl
  | cons deed rest ih =>
    rw [credited_cons, ih, name_credit, references_credit, List.flatMap_cons, List.map_append,
      List.map_append, List.foldl_append]

end Mod

/-! ## Coverage -/

theorem Run.Course.accounted {Result : Type} {step : Run Result} {before after : Patcher}
    {deeds : List Deed} {result : Result} (hcourse : Course step before deeds result after) :
    Accounted {} deeds before.world after.world := by
  induction hcourse with
  | quiet _ hquiet => exact Accounted.of_quiet hquiet
  | bind _ _ ihfirst ihnext => exact ihfirst.trans ihnext
  | evaluate hcourse => exact hcourse.accounted

theorem Patcher.Course.accounted {patcher after : Patcher} {lines : List String}
    {deeds : List Deed} (hcourse : patcher.Course lines deeds after) :
    Accounted {} deeds patcher.world after.world := by
  induction hcourse with
  | done patcher => exact Accounted.of_quiet (World.Quiet.refl _)
  | stopped _ _ => exact Accounted.of_quiet (World.Quiet.refl _)
  | blank _ _ _ ih => exact ih
  | line _ _ hline _ ih => exact hline.accounted.trans ih

/-- A mod has made a record with an identifier as a new one, and may have deleted it. -/
def Mod.Creates (mod : Mod) (pool : Pool) (id : String) : Prop :=
  (∃ own ∈ mod.records, (pool.get own).isNew = true ∧ (pool.get own).id = id) ∨ id ∈ mod.deleted

/-- A header, or the name of the mod itself, names a loaded mod that introduces an
identifier. -/
def Repository.Covers (repository : Repository) (pool : Pool) (own : String)
    (header : List Plain) (id : String) : Prop :=
  ∃ name, (name = own ∨ .str name ∈ header) ∧ repository.Introduces pool name id

/-- A header that lists the mods of all members, but the mod's own, covers each of them that
is sound. -/
theorem Member.Sound.covered {repository : Repository} {world : World} {member : Member}
    (hsound : member.Sound repository world) {patched : Mod} (hactive : world.active = some patched)
    (header : List Plain) {names : List String} (hmember : member.mod ∈ names) :
    repository.Covers world.pool patched.name
        (header ++ (newcomers patched.name header names).map .str)
        (world.pool.get member.record).id ∨
      patched.Creates world.pool (world.pool.get member.record).id := by
  rcases hsound.origin with hintroduces | ⟨mod, hmod, hcreated⟩
  · refine Or.inl ⟨member.mod, ?_, hintroduces⟩
    by_cases hown : member.mod = patched.name
    · exact Or.inl hown
    by_cases hlisted : .str member.mod ∈ header
    · exact Or.inr (List.mem_append_left _ hlisted)
    · have hnew := mem_newcomers.mpr ⟨hmember, hown, hlisted⟩
      exact Or.inr (List.mem_append_right _ (List.mem_map_of_mem hnew))
  · obtain rfl := Option.some.inj (hactive.symm.trans hmod)
    refine Or.inr (hcreated.imp_left fun hrecord => ?_)
    exact ⟨member.record, hrecord.1, hrecord.2, rfl⟩

theorem AllSound.of_targets {repository : Repository} {world : World} {deeds : List Deed}
    (hsound : AllSound repository world (deeds.flatMap Deed.groups)) {member : Member}
    (hmember : member ∈ deeds.flatMap Deed.targets) : member.Sound repository world := by
  obtain ⟨deed, hdeed, hmember⟩ := List.mem_flatMap.mp hmember
  cases deed with
  | linked target source => cases hmember
  | applied procedure targets sources =>
    have hgroup : targets ∈ deeds.flatMap Deed.groups :=
      List.mem_flatMap.mpr ⟨_, hdeed, List.mem_cons_self⟩
    exact (hsound targets hgroup).members member hmember

theorem AllSound.of_sources {repository : Repository} {world : World} {deeds : List Deed}
    (hsound : AllSound repository world (deeds.flatMap Deed.groups)) {member : Member}
    (hmember : member ∈ deeds.flatMap Deed.sources) : member.Sound repository world := by
  obtain ⟨deed, hdeed, hmember⟩ := List.mem_flatMap.mp hmember
  cases deed with
  | linked target source => cases hmember
  | applied procedure targets sources =>
    cases sources with
    | none => cases hmember
    | some group =>
      have hgroup : group ∈ deeds.flatMap Deed.groups :=
        List.mem_flatMap.mpr ⟨_, hdeed, List.mem_cons_of_mem _ List.mem_cons_self⟩
      exact (hsound group hgroup).members member hmember

/-- What the lines of a run on a mod have made of it, and what its header says of it. -/
structure Patcher.Coverage (patcher : Patcher) (mod : Mod) (lines : List String)
    (after : Patcher) (deeds : List Deed) (patched : Mod) : Prop where
  /-- The deeds are those done in the lines, in order. -/
  course : (patcher.reset.start mod).Course lines deeds after
  active : after.world.active = some patched
  name : patched.name = mod.name
  /-- The dependencies cover the overrides that have been made. -/
  overrides : ∀ own ∈ patched.records, own ∉ mod.records →
    (after.world.pool.get own).isNew = false →
    patcher.repository.Covers after.world.pool mod.name patched.dependencies
        (after.world.pool.get own).id ∨
      patched.Creates after.world.pool (after.world.pool.get own).id
  /-- The references cover the sources of the links that have been written. -/
  links : ∀ target source, .linked target source ∈ deeds →
    patcher.repository.Covers after.world.pool mod.name patched.references
        (after.world.pool.get source).id ∨
      patched.Creates after.world.pool (after.world.pool.get source).id
  /-- The mods of the targets of completed procedures have been added. -/
  dependencies : patched.dependencies = mod.dependencies ++
    (newcomers mod.name mod.dependencies ((deeds.flatMap Deed.targets).map Member.mod)).map .str
  /-- The mods of the sources of completed procedures have been added. -/
  references : patched.references = mod.references ++
    (newcomers mod.name mod.references ((deeds.flatMap Deed.sources).map Member.mod)).map .str

/-- Between any two lines of which none has failed, the dependencies cover every override
that the run has made and the references every source it has linked to, unless the mod
itself has created the record.  To the header it started with the run has added the mods
of the groups that procedures were completed on, in this order and each once. -/
theorem afterLines_header_covers (patcher : Patcher) (mod : Mod)
    (hloaded : patcher.repository.Loaded patcher.world.pool) (lines : List String) (count : Nat)
    (hpassed : (executeLines 1 0 (lines.take count) (patcher.reset.start mod)).1.2 = none) :
    ∃ deeds patched, patcher.Coverage mod (lines.take count)
      (patcher.afterLines mod (lines.take count)) deeds patched := by
  obtain ⟨-, -, hcourse⟩ := executeLines_proceeds 1 0 (lines.take count)
    (sound_start hloaded mod)
  obtain ⟨deeds, hdeeds, hsound⟩ := hcourse hpassed
  have haccounted := hdeeds.accounted
  obtain ⟨patched, hactive, hheader, hrecords⟩ := haccounted.active mod rfl
  have hname : patched.name = mod.name := hheader.name.trans (Mod.name_credited mod deeds)
  have hdependencies := hheader.dependencies.trans (mod.dependencies_credited deeds)
  have hreferences := hheader.references.trans (mod.references_credited deeds)
  refine ⟨deeds, patched, hdeeds, hactive, hname, fun own hown hadded hold => ?_,
    fun target source hlinked => ?_, hdependencies, hreferences⟩
  · obtain ⟨-, hnew | ⟨target, htarget, -, hid⟩⟩ := (hrecords own hown).resolve_left hadded
    · exact absurd (hold.symm.trans hnew) Bool.false_ne_true
    · rw [List.nil_append] at htarget
      obtain ⟨member, hmember, rfl⟩ := List.mem_map.mp htarget
      have hcovered := (AllSound.of_targets hsound hmember).covered hactive
        mod.dependencies (List.mem_map_of_mem hmember)
      rw [hname, ← hdependencies, ← hid] at hcovered
      exact hcovered
  · have hsource := haccounted.links target source hlinked
    rw [List.nil_append] at hsource
    obtain ⟨member, hmember, rfl⟩ := List.mem_map.mp hsource
    have hcovered := (AllSound.of_sources hsound hmember).covered hactive
      mod.references (List.mem_map_of_mem hmember)
    rw [hname, ← hreferences] at hcovered
    exact hcovered

/-- A script that changes all weapons and links each to every one. -/
def pairing : List String :=
  ["arms := (all)(A:WEAPON|true())", "arms -> SetField(\"damage\", 1)",
    "arms -> AddExtraData(arms, \"kin\")"]

theorem pairing_passes :
    let ran := executeLines 1 0 (pairing.take 3) (armourer.reset.start sharper)
    ran.1.2 = none ∧ ran.2.world.active.map (fun patched =>
      patched.dependencies == [.str "base"] && patched.references == [.str "base"] &&
        patched.records.length == 1) = some true := by
  decide +kernel

theorem pairing_header_covers :
    (executeLines 1 0 (pairing.take 3) (armourer.reset.start sharper)).1.2 = none ∧
      ∃ deeds patched, armourer.Coverage sharper (pairing.take 3)
        (armourer.afterLines sharper (pairing.take 3)) deeds patched :=
  ⟨pairing_passes.1,
    afterLines_header_covers armourer sharper loaded_armourer pairing 3 pairing_passes.1⟩

end Patchwork
