import Patchwork.Proofs.Workspace.Commands

/-!
# Directories that runs lead to

However often mods are run, each mod is loaded from what stood in the directory at the
start: from the mod itself as long as no run has saved it, and from a copy of it after
that.  So the same mods are loaded in every run, and a run of a mod saves what it would
have saved at the start.
-/

namespace Patchwork

namespace Directory

/-- A directory that runs of mods may lead to from the one at the start. -/
structure Later (start now : Directory) : Prop where
  folders : now.folders = start.folders
  /-- Nothing but mods, their copies and their logs is written. -/
  others : ∀ place, (∀ mod, start.IsMod mod → place ≠ mod ∧ place ≠ sibling mod ".unpatched" ∧
    place ≠ sibling mod ".patchlog") → now.files.get? place = start.files.get? place
  /-- A copy that was there at the start stays, and any other one is of the mod then. -/
  pristine : ∀ mod, start.IsMod mod →
    now.files.get? (sibling mod ".unpatched") = start.files.get? (sibling mod ".unpatched") ∨
      now.files.get? (sibling mod ".unpatched") = start.pristine? mod
  /-- A mod that was saved has a script and a copy. -/
  mods : ∀ mod, start.IsMod mod → now.files.get? mod = start.files.get? mod ∨
    (start.files.has (sibling mod ".patch") = true ∧
      now.files.has (sibling mod ".unpatched") = true ∧ now.files.has mod = true)
  names : ∀ here, (now.namesIn here).filter isModName = (start.namesIn here).filter isModName

/-- A directory where nothing but mods, their copies and their logs has been written, and
where all mods still are. -/
structure Reworked (start now : Directory) : Prop where
  folders : now.folders = start.folders
  others : ∀ place, (∀ mod, start.IsMod mod → place ≠ mod ∧ place ≠ sibling mod ".unpatched" ∧
    place ≠ sibling mod ".patchlog") → now.files.get? place = start.files.get? place
  present : ∀ mod, start.IsMod mod → now.files.has mod = true
  names : ∀ here, (now.namesIn here).filter isModName = (start.namesIn here).filter isModName

variable {start now after : Directory} {place mod other : Place} {path : Path}
  {saved? : Option Plain}

theorem Later.refl (start : Directory) : start.Later start :=
  ⟨rfl, fun _ _ => rfl, fun _ _ => .inl rfl, fun _ _ => .inl rfl, fun _ => rfl⟩

theorem IsMod.isSome_pristine? (hmod : start.IsMod mod) :
    (start.pristine? mod).isSome = true := by
  rw [pristine?, Option.isSome_or]
  exact Bool.or_eq_true_iff.mpr (.inr hmod.present)

/-- A run of one mod keeps the other ones. -/
theorem Patched.get?_of_ne (hpatched : now.Patched mod saved? after) (hmod : start.IsMod mod)
    (hother : start.IsMod other) (hne : other ≠ mod) :
    after.files.get? other = now.files.get? other :=
  hpatched.others other hne (hother.ne_sibling hmod (by decide))
    (hother.ne_sibling hmod (by decide))

/-- If no two mods have one stem, it keeps the copies of the other ones as well. -/
theorem Patched.apart (hpatched : now.Patched mod saved? after) (harranged : start.Arranged)
    (hmod : start.IsMod mod) (hother : start.IsMod other) (hne : other ≠ mod) :
    after.files.get? other = now.files.get? other ∧
      after.files.get? (sibling other ".unpatched") =
        now.files.get? (sibling other ".unpatched") :=
  ⟨hpatched.get?_of_ne hmod hother hne,
    hpatched.others _ (hmod.ne_sibling hother (by decide)).symm
      (harranged.sibling_ne hother hmod hne (by decide) (by decide))
      (harranged.sibling_ne hother hmod hne (by decide) (by decide))⟩

/-- If there is a script, a mod is loaded as it is patched. -/
theorem get?_baseline (directory : Directory) (mod : Place) :
    directory.files.get? (directory.baseline mod) =
      if directory.files.has (sibling mod ".patch") then directory.pristine? mod
      else directory.files.get? mod := by
  rw [baseline, pristine?, Entries.has, Entries.has]
  cases directory.files.get? (sibling mod ".patch") with
  | none => rfl
  | some _ => cases hcopy : directory.files.get? (sibling mod ".unpatched") <;> simp [hcopy]

namespace Reworked

theorem refl (start : Directory) : start.Reworked start :=
  ⟨rfl, fun _ _ => rfl, fun _ hmod => hmod.present, fun _ => rfl⟩

theorem modAt {files : PatchFiles} (hreworked : start.Reworked now)
    (hmodAt : start.ModAt files mod) : now.ModAt files mod :=
  hmodAt.congr hreworked.folders (hreworked.present mod hmodAt.mod)

theorem script (hreworked : start.Reworked now) (hmod : start.IsMod mod) :
    now.files.get? (sibling mod ".patch") = start.files.get? (sibling mod ".patch") := by
  refine hreworked.others _ fun other hother =>
    ⟨fun hsame => ?_, fun hsame => ?_, fun hsame => ?_⟩
  · exact hother.ne_sibling hmod (by decide : ".patch" ∈ patchSuffixes) hsame.symm
  · exact absurd (hmod.sibling_inj hother (by decide) (by decide) hsame).2 (by decide)
  · exact absurd (hmod.sibling_inj hother (by decide) (by decide) hsame).2 (by decide)

theorem of_patched (hreworked : start.Reworked now) (hmod : start.IsMod mod)
    (hpatched : now.Patched mod saved? after) : start.Reworked after where
  folders := hpatched.folders.trans hreworked.folders
  others place hplace := by
    obtain ⟨hne, hpristine, hlog⟩ := hplace mod hmod
    rw [hpatched.others place hne hpristine hlog, hreworked.others place hplace]
  present other hother := by
    have hnow := hreworked.present other hother
    by_cases hsame : other = mod
    · subst hsame
      rw [Entries.has, hpatched.mod]
      cases saved? with
      | some document => rfl
      | none => exact hnow
    · rw [Entries.has, hpatched.get?_of_ne hmod hother hsame]
      exact hnow
  names here := (hpatched.names here).trans (hreworked.names here)

end Reworked

namespace Later

theorem reworked (hlater : start.Later now) : start.Reworked now where
  folders := hlater.folders
  others := hlater.others
  present mod hmod := by
    obtain hsame | ⟨-, -, hpresent⟩ := hlater.mods mod hmod
    · rw [Entries.has, hsame]
      exact hmod.present
    · exact hpresent
  names := hlater.names

/-! ## What stays the same -/

/-- As long as there is no copy, the mod is as it was at the start. -/
theorem mod_eq (hlater : start.Later now) (hmod : start.IsMod mod)
    (hpristine : now.files.get? (sibling mod ".unpatched") = none) :
    now.files.get? mod = start.files.get? mod := by
  obtain hsame | ⟨-, hcopy, -⟩ := hlater.mods mod hmod
  · exact hsame
  · rw [Entries.has, hpristine] at hcopy
    exact Bool.noConfusion hcopy

/-- Runs start from the same copy at any time. -/
theorem pristine?_eq (hlater : start.Later now) (hmod : start.IsMod mod) :
    now.pristine? mod = start.pristine? mod := by
  rw [pristine?]
  cases hcopy : now.files.get? (sibling mod ".unpatched") with
  | none =>
    -- Without a copy the mod is as it was, and there was no copy at the start either.
    rw [Option.none_or, hlater.mod_eq hmod hcopy, pristine?]
    obtain hsame | hsame := hlater.pristine mod hmod
    · rw [← hsame, hcopy, Option.none_or]
    · rw [hcopy, pristine?, eq_comm, Option.or_eq_none_iff] at hsame
      rw [hsame.1, Option.none_or]
  | some content =>
    rw [Option.some_or]
    obtain hsame | hsame := hlater.pristine mod hmod
    · rw [pristine?, ← hsame, hcopy, Option.some_or]
    · rw [← hsame, hcopy]

theorem preparation?_eq (hlater : start.Later now) (hmod : start.IsMod mod) :
    now.preparation? mod = start.preparation? mod := by
  rw [preparation?, preparation?, hlater.pristine?_eq hmod, hlater.reworked.script hmod]

/-- A mod is loaded with the same content at any time. -/
theorem baseline_eq (hlater : start.Later now) (hmod : start.IsMod mod) :
    now.files.get? (now.baseline mod) = start.files.get? (start.baseline mod) := by
  rw [get?_baseline, get?_baseline, Entries.has, Entries.has, hlater.reworked.script hmod,
    hlater.pristine?_eq hmod]
  split
  · rfl
  · rename_i hscript
    obtain hsame | ⟨hpresent, -⟩ := hlater.mods mod hmod
    · exact hsame
    · exact absurd hpresent hscript

theorem loadInto?_eq (hlater : start.Later now) (hmod : start.IsMod mod)
    (hplace : start.place? path = some mod) (loaded : Repository × Pool) :
    now.loadInto? loaded path = start.loadInto? loaded path := by
  rw [loadInto?, loadInto?, place?_congr hlater.folders, hplace]
  simp only [Option.bind_eq_bind, Option.bind_some]
  rw [hlater.baseline_eq hmod]

theorem load?_eq (hlater : start.Later now) {paths : List Path}
    (hpaths : ∀ path ∈ paths, ∃ mod, start.IsMod mod ∧ start.place? path = some mod) :
    now.load? paths = start.load? paths := by
  rw [load?, load?]
  generalize (({}, {}) : Repository × Pool) = loaded
  induction paths generalizing loaded with
  | nil => rfl
  | cons path rest ih =>
    obtain ⟨mod, hmod, hplace⟩ := hpaths path List.mem_cons_self
    rw [List.foldlM_cons, List.foldlM_cons, hlater.loadInto?_eq hmod hplace]
    exact bind_congr fun loaded =>
      ih (fun other hother => hpaths other (List.mem_cons_of_mem _ hother)) loaded

/-! ## The step -/

theorem of_patched (hlater : start.Later now) (harranged : start.Arranged)
    (hmod : start.IsMod mod) (hpatched : now.Patched mod saved? after)
    (hscript : saved?.isSome = true → start.files.has (sibling mod ".patch") = true) :
    start.Later after where
  folders := (hlater.reworked.of_patched hmod hpatched).folders
  others := (hlater.reworked.of_patched hmod hpatched).others
  pristine other hother := by
    by_cases hsame : other = mod
    · subst hsame
      exact .inr (hpatched.pristine.trans (hlater.pristine?_eq hmod))
    · rw [(hpatched.apart harranged hmod hother hsame).2]
      exact hlater.pristine other hother
  mods other hother := by
    by_cases hsame : other = mod
    · -- The run has left a copy, whether it saved the mod or not.
      subst hsame
      have hcopy : after.files.has (sibling other ".unpatched") = true := by
        rw [Entries.has, hpatched.pristine, hlater.pristine?_eq hmod]
        exact hmod.isSome_pristine?
      have hfile := hpatched.mod
      cases saved? with
      | some document => exact .inr ⟨hscript rfl, hcopy, by rw [Entries.has, hfile]; rfl⟩
      | none =>
        rw [Option.map_none, Option.none_or] at hfile
        have hpresent : after.files.has other = now.files.has other := by
          rw [Entries.has, hfile, Entries.has]
        rw [hpresent, hfile, hcopy]
        obtain hstart | ⟨hscript, -, hnow⟩ := hlater.mods other hother
        · exact .inl hstart
        · exact .inr ⟨hscript, rfl, hnow⟩
    · obtain ⟨hfile, hcopy⟩ := hpatched.apart harranged hmod hother hsame
      have hmods := hlater.mods other hother
      rw [Entries.has, Entries.has, Entries.has, ← hfile, ← hcopy] at hmods
      exact hmods
  names := (hlater.reworked.of_patched hmod hpatched).names

end Later

end Directory

end Patchwork
