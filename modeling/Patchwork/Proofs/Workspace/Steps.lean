import Patchwork.Proofs.Workspace.Discovery

/-!
# One command among many

A command that runs a mod in a directory that earlier runs lead to finds the mod and
saves the document that it would have found and saved at the start.
-/

namespace Patchwork

namespace Directory

variable {start now after : Directory} {settings : Settings} {place mod : Place} {asked : String}

/-- A command asks for a mod, or for nothing that is there or that a run writes. -/
structure Admits (directory : Directory) (settings : Settings) (asked : String) : Prop where
  direct : directory.Steady (.ofText asked)
  inFolder : ∀ folder, settings.modsFolder = .ok folder →
    directory.Steady (folder.join (.ofText asked))

/-- A mod that stands under its name where the commands are given can be asked for. -/
theorem IsMod.admits (hmod : start.IsMod [asked])
    (hplace : start.place? (.ofText asked) = some [asked]) (hfolder : settings.modsFolder = .ok {}) :
    start.Admits settings asked := by
  have hsteady : start.Steady (.ofText asked) := fun place hthere =>
    .inl (Option.some.inj (hplace.symm.trans hthere) ▸ hmod)
  refine ⟨hsteady, fun folder hother => ?_⟩
  obtain rfl : {} = folder := Except.ok.inj (hfolder.symm.trans hother)
  rw [Path.join_nil]
  exact hsteady

/-! ## What commands find and save -/

theorem Reworked.found?_eq (hreworked : start.Reworked now)
    (hadmits : start.Admits settings asked) :
    now.found? settings (.ofText asked) = start.found? settings (.ofText asked) := by
  rw [found?, found?, hreworked.has_eq hadmits.direct]

theorem Admits.steady (hadmits : start.Admits settings asked) {path : Path}
    (hfound : start.found? settings (.ofText asked) = some path) : start.Steady path := by
  rw [found?] at hfound
  split at hfound
  · exact Option.some.inj hfound ▸ hadmits.direct
  · obtain ⟨folder, hfolder, rfl⟩ := Option.map_eq_some_iff.mp hfound
    exact hadmits.inFolder folder (eq_ok_of_toOption hfolder)

theorem Admits.normal {path : Path} (hfound : start.found? settings (.ofText asked) = some path)
    (hroot : path.isRooted = false) : path.Normal := by
  rw [found?] at hfound
  split at hfound
  · obtain rfl := Option.some.inj hfound
    exact Path.normal_ofText hroot
  · obtain ⟨folder, hfolder, rfl⟩ := Option.map_eq_some_iff.mp hfound
    obtain ⟨base, rfl⟩ := exists_text_of_modsFolder hfolder
    exact Path.normal_join_ofText hroot

theorem Reworked.asked?_eq (hreworked : start.Reworked now)
    (hadmits : start.Admits settings asked) :
    now.asked? settings asked = start.asked? settings asked := by
  rw [asked?, asked?, hreworked.found?_eq hadmits]
  refine Option.bind_congr fun path hpath => ?_
  rw [hreworked.has_eq (hadmits.steady hpath), place?_congr hreworked.folders]

/-- A command that finds something finds a mod. -/
theorem Suits.exists_modAt (hsuits : start.Suits settings)
    (hadmits : start.Admits settings asked) (hasked : start.asked? settings asked = some mod) :
    ∃ files, start.found? settings (.ofText asked) = some files.mod ∧ start.ModAt files mod := by
  obtain ⟨path, hfound, hplace⟩ := Option.bind_eq_some_iff.mp hasked
  split at hplace
  · rename_i hhas
    obtain ⟨place, hmod, hleads⟩ := hsuits.housed.exists_leads
      (Admits.normal hfound) (hadmits.steady hfound) hhas
    obtain rfl : place = mod := Option.some.inj (hleads.leads.symm.trans hplace)
    obtain ⟨files, rfl, hmodAt⟩ := hsuits.housed.exists_modAt hmod hleads
    exact ⟨files, hfound, hmodAt⟩
  · cases hplace

/-- Everything that a command loads is a mod with its files. -/
theorem Reworked.modAt_of_mem (hreworked : start.Reworked now) (hsuits : start.Suits settings)
    {paths : List Path} (hpaths : now.discovered? settings = some paths) {path : Path}
    (hpath : path ∈ paths) : ∃ files place, files.mod = path ∧ now.ModAt files place := by
  rw [hreworked.discovered?_eq hsuits] at hpaths
  obtain ⟨place, hplace, hleads⟩ := hsuits.leads_of_mem hpaths hpath
  obtain ⟨files, hfiles, hmodAt⟩ := hsuits.housed.exists_modAt hplace hleads
  exact ⟨files, place, hfiles, hreworked.modAt hmodAt⟩

theorem Later.patcher_saved?_eq (hlater : start.Later now) (hmod : start.IsMod mod)
    (patcher : Patcher) : patcher.saved? now mod = patcher.saved? start mod := by
  rw [Patcher.saved?, Patcher.saved?, hlater.preparation?_eq hmod]

/-- A run saves what it would have saved at the start. -/
theorem Later.saved?_eq (hlater : start.Later now) (hserves : start.Serves settings)
    (hmod : start.IsMod mod) : now.saved? settings mod = start.saved? settings mod := by
  rw [saved?, saved?, hlater.reworked.discovered?_eq hserves.suits]
  refine Option.bind_congr fun paths hpaths => ?_
  have hload := hlater.load?_eq fun path hpath => by
    obtain ⟨place, hplace, hleads⟩ := hserves.suits.leads_of_mem hpaths hpath
    exact ⟨place, hplace, hleads.leads⟩
  rw [hload]
  exact Option.bind_congr fun loaded _ => Option.bind_congr fun found _ =>
    hlater.patcher_saved?_eq hmod _

/-- Nothing is saved without a script. -/
theorem has_script_of_saved? (hsaved : (start.saved? settings mod).isSome = true) :
    start.files.has (sibling mod ".patch") = true := by
  obtain ⟨document, hdocument⟩ := Option.isSome_iff_exists.mp hsaved
  obtain ⟨paths, -, hdocument⟩ := Option.bind_eq_some_iff.mp hdocument
  obtain ⟨loaded, -, hdocument⟩ := Option.bind_eq_some_iff.mp hdocument
  obtain ⟨found, -, hdocument⟩ := Option.bind_eq_some_iff.mp hdocument
  obtain ⟨prepared, hprepared, -⟩ := Option.bind_eq_some_iff.mp hdocument
  obtain ⟨content, -, hprepared⟩ := Option.bind_eq_some_iff.mp hprepared
  obtain ⟨file, -, hprepared⟩ := Option.bind_eq_some_iff.mp hprepared
  obtain ⟨script, hscript, -⟩ := Option.bind_eq_some_iff.mp hprepared
  rw [Entries.has, hscript]
  rfl

/-! ## One command -/

/-- What a command makes of a directory: nothing if it does not begin to run a mod, and
otherwise what the run of the mod makes of it. -/
inductive Step (start : Directory) (settings : Settings) (asked : String) (now after : Directory) :
    Prop
  | idle (hnothing : (start.asked? settings asked).bind (start.saved? settings) = none)
      (hsame : after = now)
  | patched (mod : Place) (hasked : start.asked? settings asked = some mod)
      (hmod : start.IsMod mod) (hpatched : now.Patched mod (start.saved? settings mod) after)

/-- A command leaves the directory as it is, or it runs the mod it asks for. -/
theorem Reworked.ends_outcome {frame : Workspace} (hreworked : start.Reworked now)
    (hsettings : frame.settings = some settings) (hsuits : start.Suits settings)
    (hadmits : start.Admits settings asked) :
    Job.Ends frame (Command.outcome asked settings) now fun result after =>
      isSaved (result.bind Except.toOption) =
          ((start.asked? settings asked).bind (now.saved? settings)).isSome ∧
        ((start.asked? settings asked).bind (now.saved? settings) = none ∧ after = now ∨
          ∃ mod, start.asked? settings asked = some mod ∧ start.IsMod mod ∧
            now.Patched mod (now.saved? settings mod) after) := by
  have hasked := hreworked.asked?_eq hadmits
  cases hfound : start.asked? settings asked with
  | none =>
    rw [hfound] at hasked
    refine (ends_outcome_of_missing hasked).mono fun result after houtcome => ?_
    exact ⟨houtcome.1, .inl ⟨rfl, houtcome.2⟩⟩
  | some mod =>
    obtain ⟨files, hpath, hmodAt⟩ := hsuits.exists_modAt hadmits hfound
    rw [← hreworked.found?_eq hadmits] at hpath
    refine (Patchwork.ends_outcome hsettings (hreworked.modAt hmodAt) hpath fun paths hpaths path =>
      hreworked.modAt_of_mem hsuits hpaths).mono fun result after houtcome => ?_
    exact ⟨houtcome.1, houtcome.2.imp_right fun hpatched => ⟨mod, rfl, hmodAt.mod, hpatched⟩⟩

theorem ends_step {frame : Workspace} (hsettings : frame.settings = some settings)
    (hserves : start.Serves settings) (hadmits : start.Admits settings asked)
    (hlater : start.Later now) :
    Job.Ends frame (Command.outcome asked settings) now fun result after =>
      isSaved (result.bind Except.toOption) =
          ((start.asked? settings asked).bind (start.saved? settings)).isSome ∧
        start.Step settings asked now after := by
  have hsaved : (start.asked? settings asked).bind (now.saved? settings) =
      (start.asked? settings asked).bind (start.saved? settings) :=
    Option.bind_congr fun mod hfound => by
      obtain ⟨files, -, hmodAt⟩ := hserves.suits.exists_modAt hadmits hfound
      exact hlater.saved?_eq hserves hmodAt.mod
  have houtcome := hlater.reworked.ends_outcome hsettings hserves.suits hadmits
  rw [hsaved] at houtcome
  refine houtcome.mono fun result after hends => ⟨hends.1, ?_⟩
  obtain ⟨hnone, hsame⟩ | ⟨mod, hfound, hmod, hpatched⟩ := hends.2
  · exact .idle hnone hsame
  · exact .patched mod hfound hmod (hlater.saved?_eq hserves hmod ▸ hpatched)

/-- A place for the copy of a mod. -/
def IsCopy (place : Place) : Prop :=
  (Path.cutSuffix (place.getLast?.getD "")).2 = ".unpatched"

theorem IsMod.ne_of_isCopy (hmod : start.IsMod mod) (hcopy : IsCopy place) :
    place ≠ mod ∧ place ≠ sibling mod ".patchlog" := by
  refine ⟨?_, ?_⟩
  · rintro rfl
    have hsuffix := hmod.suffix
    rw [hcopy] at hsuffix
    exact absurd hsuffix (by decide)
  · rintro rfl
    rw [IsCopy, hmod.suffix_sibling (by decide)] at hcopy
    exact absurd hcopy (by decide)

/-- A copy that was not there at the start is one of a mod at the start. -/
theorem Later.eq_of_isCopy (hlater : start.Later now) (hcopy : IsCopy place)
    (hstart : start.files.get? place = none) {content : Content}
    (hnow : now.files.get? place = some content) :
    ∃ mod, start.IsMod mod ∧ place = sibling mod ".unpatched" ∧
      start.files.get? mod = some content := by
  by_cases hplace : ∃ mod, start.IsMod mod ∧ place = sibling mod ".unpatched"
  · obtain ⟨mod, hmod, rfl⟩ := hplace
    refine ⟨mod, hmod, rfl, ?_⟩
    rw [← hnow]
    obtain hsame | hsame := hlater.pristine mod hmod
    · rw [hsame, hstart] at hnow
      cases hnow
    · rw [hsame, pristine?, hstart, Option.none_or]
  · have hsame := hlater.others place fun mod hmod =>
      ⟨(hmod.ne_of_isCopy hcopy).1, fun heq => hplace ⟨mod, hmod, heq⟩,
        (hmod.ne_of_isCopy hcopy).2⟩
    rw [hsame, hstart] at hnow
    cases hnow

namespace Step

theorem later (hstep : start.Step settings asked now after) (harranged : start.Arranged)
    (hlater : start.Later now) : start.Later after := by
  cases hstep with
  | idle _ hsame => exact hsame ▸ hlater
  | patched mod _ hmod hpatched =>
    exact hlater.of_patched harranged hmod hpatched has_script_of_saved?

/-- A copy that is there stays. -/
theorem get?_of_isCopy (hstep : start.Step settings asked now after) (hcopy : IsCopy place)
    {content : Content} (hcontent : now.files.get? place = some content) :
    after.files.get? place = some content := by
  cases hstep with
  | idle _ hsame => exact hsame ▸ hcontent
  | patched mod _ hmod hpatched =>
    obtain ⟨hne, hlog⟩ := hmod.ne_of_isCopy hcopy
    by_cases hpristine : place = sibling mod ".unpatched"
    · rw [hpristine, hpatched.pristine, pristine?, ← hpristine, hcontent, Option.some_or]
    · rw [hpatched.others place hne hpristine hlog, hcontent]

/-- A command only writes the mod it asks for. -/
theorem get?_of_isMod (hstep : start.Step settings asked now after) (harranged : start.Arranged)
    (hmod : start.IsMod mod) :
    after.files.get? mod =
      if start.asked? settings asked = some mod then
        ((start.saved? settings mod).map Content.document).or (now.files.get? mod)
      else now.files.get? mod := by
  cases hstep with
  | idle hnothing hsame =>
    rw [hsame]
    split
    · rename_i hasked
      rw [hasked, Option.bind_some] at hnothing
      rw [hnothing, Option.map_none, Option.none_or]
    · rfl
  | patched other hasked hother hpatched =>
    rw [hasked]
    by_cases hsame : mod = other
    · rw [if_pos (congrArg some hsame.symm), hsame, hpatched.mod]
    · rw [if_neg fun heq => hsame (Option.some.inj heq).symm]
      exact (hpatched.apart harranged hother hmod hsame).1

end Step

end Directory

end Patchwork
