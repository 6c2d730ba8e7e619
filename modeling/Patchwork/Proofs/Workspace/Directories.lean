import Patchwork.Proofs.Entries
import Patchwork.Proofs.Workspace.Paths
import Patchwork.Workspace

/-!
# Mods in a directory

A directory has proper names, no file that is a folder as well, and every folder
stands in one.  A mod is a file with the suffix of one; its script, the copy from
before its first run and the log of its last run stand next to it under its stem.
-/

namespace Patchwork

/-- A name of a file or folder. -/
structure IsFileName (name : String) : Prop extends Path.IsStep name where
  notBack : name ≠ ".."
  noNull : '\x00' ∉ name.toList

/-- The place next to a file with the same stem and another suffix. -/
def sibling (place : Place) (suffix : String) : Place :=
  place.dropLast ++ [Path.stem (place.getLast?.getD "") ++ suffix]

@[simp]
theorem sibling_append (here : Place) (name suffix : String) :
    sibling (here ++ [name]) suffix = here ++ [Path.stem name ++ suffix] := by
  simp [sibling]

/-- The suffixes of mods. -/
def modSuffixes : List String :=
  [".base", ".mod"]

/-- The suffixes of the other files of a mod. -/
def patchSuffixes : List String :=
  [".patch", ".unpatched", ".patchlog"]

namespace Directory

/-- The names make sense, no file is a folder, and folders stand in folders. -/
structure Proper (directory : Directory) : Prop where
  names : ∀ place, directory.files.has place = true ∨ place ∈ directory.folders →
    ∀ name ∈ place, IsFileName name
  files : ∀ place, directory.files.has place = true → directory.isFolder place = false
  folders : ∀ place ∈ directory.folders, directory.isFolder place.dropLast = true

/-- Whether a mod stands at a place. -/
structure IsMod (directory : Directory) (place : Place) : Prop where
  present : directory.files.has place = true
  suffix : (Path.cutSuffix (place.getLast?.getD "")).2 ∈ modSuffixes

/-- A directory of mods none of which has the stem of another one next to it. -/
structure Arranged (directory : Directory) : Prop extends Proper directory where
  stems : ∀ first second, directory.IsMod first → directory.IsMod second →
    sibling first "" = sibling second "" → first = second
  free : ∀ place, directory.IsMod place → ∀ suffix ∈ patchSuffixes,
    directory.isFolder (sibling place suffix) = false

/-- A directory of mods where no folder stands in the place of a file of one. -/
structure Housed (directory : Directory) : Prop extends Proper directory where
  free : ∀ place, directory.IsMod place → ∀ suffix ∈ patchSuffixes,
    directory.isFolder (sibling place suffix) = false

theorem Arranged.housed {directory : Directory} (harranged : directory.Arranged) :
    directory.Housed :=
  ⟨harranged.toProper, harranged.free⟩

/-- A path leads to a place that is no folder, and so does its text. -/
structure Leads (directory : Directory) (path : Path) (place : Place) : Prop where
  normal : path.Normal
  noNull : ∀ name ∈ path.names, '\x00' ∉ name.toList
  leads : directory.place? path = some place
  noFolder : directory.isFolder place = false

/-! ## Where paths lead -/

section

variable {directory : Directory} {path : Path} {place here next : Place} {name : String}

theorem isFolder_of_step? (hstep : directory.step? here name = some next) :
    directory.isFolder here = true := by
  cases hfolder : directory.isFolder here with
  | true => rfl
  | false => simp [step?, hfolder] at hstep

theorem step?_cases (hstep : directory.step? here name = some next) :
    (name = ".." ∧ here ≠ [] ∧ next = here.dropLast) ∨ (name ≠ ".." ∧ next = here ++ [name]) := by
  rw [step?, isFolder_of_step? hstep] at hstep
  simp only [Bool.not_true, Bool.false_eq_true, if_false, beq_iff_eq] at hstep
  split at hstep
  · rename_i hback
    split at hstep
    · cases hstep
    · rename_i hsome
      exact .inl ⟨hback, by simpa using hsome, (Option.some.inj hstep).symm⟩
  · rename_i hback
    exact .inr ⟨hback, (Option.some.inj hstep).symm⟩

theorem step?_of_isFolder (hhere : directory.isFolder here = true) (hname : name ≠ "..") :
    directory.step? here name = some (here ++ [name]) := by
  simp [step?, hhere, hname]

/-- Whether something stands at a place. -/
def Present (directory : Directory) (place : Place) : Prop :=
  directory.files.has place = true ∨ directory.isFolder place = true

theorem Proper.isFileName (hproper : directory.Proper)
    (hpresent : directory.Present (here ++ [name])) : IsFileName name := by
  have hnames : directory.files.has (here ++ [name]) = true ∨
      here ++ [name] ∈ directory.folders := by
    obtain hfile | hfolder := hpresent
    · exact .inl hfile
    · refine .inr ?_
      simpa [isFolder] using hfolder
  exact hproper.names _ hnames name (by simp)

/-- Every name on the way to something that is there is the name of something that is
there, or a step back. -/
theorem Proper.isFileName_of_mem (hproper : directory.Proper) {names : List String}
    (hplace : names.foldlM directory.step? here = some place)
    (hpresent : directory.Present place) (hname : name ∈ names) :
    name = ".." ∨ IsFileName name := by
  induction names generalizing here with
  | nil => cases hname
  | cons first rest ih =>
    rw [List.foldlM_cons] at hplace
    obtain ⟨next, hstep, hrest⟩ := Option.bind_eq_some_iff.mp hplace
    rcases List.mem_cons.mp hname with rfl | hname
    · have hnext : directory.Present next := by
        cases rest with
        | nil => exact Option.some.inj hrest ▸ hpresent
        | cons second rest =>
          rw [List.foldlM_cons] at hrest
          obtain ⟨_, hsecond, -⟩ := Option.bind_eq_some_iff.mp hrest
          exact .inr (isFolder_of_step? hsecond)
      obtain ⟨hback, -⟩ | ⟨-, rfl⟩ := step?_cases hstep
      · exact .inl hback
      · exact .inr (hproper.isFileName hnext)
    · exact ih hrest hname

theorem place?_eq_foldlM (hpath : path.Normal) :
    directory.place? path = path.names.foldlM directory.step? [] := by
  rw [place?, Path.isRooted, hpath.unrooted]
  rfl

theorem Proper.leads (hproper : directory.Proper) (hpath : path.Normal)
    (hplace : directory.place? path = some place) (hfile : directory.files.has place = true) :
    directory.Leads path place := by
  refine ⟨hpath, fun name hname => ?_, hplace, hproper.files place hfile⟩
  rw [place?_eq_foldlM hpath] at hplace
  obtain rfl | hfile := hproper.isFileName_of_mem hplace (.inl hfile) hname
  · decide
  · exact hfile.noNull

theorem IsMod.exists_name (hmod : directory.IsMod place) :
    ∃ here name, place = here ++ [name] ∧ (Path.cutSuffix name).2 ∈ modSuffixes := by
  have hsuffix := hmod.suffix
  rcases List.eq_nil_or_concat place with rfl | ⟨here, name, rfl⟩
  · exact absurd hsuffix (by decide)
  · exact ⟨here, name, by simp, by simpa using hsuffix⟩

theorem suffix_ne_empty (hsuffix : (Path.cutSuffix name).2 ∈ modSuffixes) :
    (Path.cutSuffix name).2 ≠ "" := by
  intro hempty
  rw [hempty] at hsuffix
  exact absurd hsuffix (by decide)

/-- The way to a mod ends with its name. -/
theorem Proper.exists_way (hproper : directory.Proper) (hmod : directory.IsMod place)
    (hpath : path.Normal) (hplace : directory.place? path = some place) :
    ∃ front here name, path.names = front ++ [name] ∧
      front.foldlM directory.step? [] = some here ∧ directory.isFolder here = true ∧
        place = here ++ [name] := by
  rw [place?_eq_foldlM hpath] at hplace
  rcases List.eq_nil_or_concat path.names with hnil | ⟨front, name, hnames⟩
  · rw [hnil] at hplace
    obtain ⟨here, name, hname, -⟩ := hmod.exists_name
    rw [hname] at hplace
    simp at hplace
  · rw [hnames, List.concat_eq_append, List.foldlM_append] at hplace
    obtain ⟨here, hfront, hlast⟩ := Option.bind_eq_some_iff.mp hplace
    simp only [List.foldlM_cons, List.foldlM_nil, bind_pure] at hlast
    refine ⟨front, here, name, by simpa using hnames, hfront, isFolder_of_step? hlast, ?_⟩
    obtain ⟨-, hhere, rfl⟩ | ⟨-, rfl⟩ := step?_cases hlast
    · -- The place would be a folder, which no file is.
      have hfolder : here ∈ directory.folders := by
        have := isFolder_of_step? hlast
        simpa [isFolder, hhere] using this
      have hback := hproper.folders here hfolder
      rw [hproper.files _ hmod.present] at hback
      exact Bool.noConfusion hback
    · rfl

/-- A directory without folders, where the places of the files are their names. -/
theorem housed_of_flat (hfolders : directory.folders = [])
    (hfiles : ∀ entry ∈ directory.files, ∃ name, entry.1 = [name] ∧ IsFileName name) :
    directory.Housed := by
  have hflat : ∀ place, directory.files.has place = true →
      ∃ name, place = [name] ∧ IsFileName name := by
    intro place hfile
    obtain ⟨content, hcontent⟩ := Option.isSome_iff_exists.mp hfile
    exact hfiles _ (Entries.mem_of_get?_self hcontent)
  refine ⟨⟨fun place hplace => ?_, fun place hfile => ?_, fun place hfolder => ?_⟩,
    fun place hmod suffix _ => ?_⟩
  · obtain hfile | hfolder := hplace
    · obtain ⟨name, rfl, hname⟩ := hflat place hfile
      exact fun other hother => List.mem_singleton.mp hother ▸ hname
    · rw [hfolders] at hfolder
      cases hfolder
  · obtain ⟨name, rfl, -⟩ := hflat place hfile
    simp [isFolder, hfolders]
  · rw [hfolders] at hfolder
    cases hfolder
  · obtain ⟨here, name, rfl, -⟩ := hmod.exists_name
    simp [isFolder, hfolders]

/-! ## The files of a mod -/

theorem isSuffix_of_mem {suffix : String} (hsuffix : suffix ∈ patchSuffixes) :
    Path.IsSuffix suffix := by
  simp only [patchSuffixes, List.mem_cons, List.not_mem_nil, or_false] at hsuffix
  rcases hsuffix with rfl | rfl | rfl
  all_goals exact ⟨_, rfl, by decide, by decide⟩

/-- The name of another file of a mod is a name of a file. -/
theorem isFileName_stem_append {suffix : String} (hname : IsFileName name)
    (hmod : (Path.cutSuffix name).2 ∈ modSuffixes) (hsuffix : suffix ∈ patchSuffixes) :
    IsFileName (Path.stem name ++ suffix) := by
  have hcut := Path.cutSuffix_stem_append (suffix_ne_empty hmod) (isSuffix_of_mem hsuffix)
  have hplain : '/' ∉ suffix.toList ∧ '\x00' ∉ suffix.toList ∧ suffix ≠ "" := by
    simp only [patchSuffixes, List.mem_cons, List.not_mem_nil, or_false] at hsuffix
    rcases hsuffix with rfl | rfl | rfl <;> decide
  have hsuffixed : ∀ other, (Path.cutSuffix other).2 = "" → Path.stem name ++ suffix ≠ other := by
    rintro other hother rfl
    rw [hcut] at hother
    exact hplain.2.2 hother
  have hempty := hsuffixed "" (by decide)
  have hpoint := hsuffixed "." (by decide)
  have hback := hsuffixed ".." (by decide)
  refine ⟨⟨by simp [Path.isSaying, hempty, hpoint], fun hslash => ?_⟩, hback, fun hnull => ?_⟩
  · rw [String.toList_append, List.mem_append] at hslash
    exact hslash.elim (fun hstem => hname.noSlash (Path.mem_of_mem_stem hstem)) hplain.1
  · rw [String.toList_append, List.mem_append] at hnull
    exact hnull.elim (fun hstem => hname.noNull (Path.mem_of_mem_stem hstem)) hplain.2.1

theorem Housed.leads_sibling (hhoused : directory.Housed) (hmod : directory.IsMod place)
    (hleads : directory.Leads path place) {suffix : String} (hsuffix : suffix ∈ patchSuffixes) :
    ∃ other, path.withSuffix? suffix = some other ∧
      directory.Leads other (sibling place suffix) := by
  obtain ⟨front, here, name, hnames, hfront, hhere, rfl⟩ :=
    hhoused.exists_way hmod hleads.normal hleads.leads
  have hname : IsFileName name := hhoused.isFileName (.inl hmod.present)
  have hmodName : (Path.cutSuffix name).2 ∈ modSuffixes := by simpa using hmod.suffix
  have hother := isFileName_stem_append hname hmodName hsuffix
  have hlast : path.name = name := by simp [Path.name, hnames]
  have hsome : (name == "") = false := by
    have hfilled := hname.isFilled
    simp only [Path.isSaying, Bool.and_eq_true, bne_iff_ne] at hfilled
    simpa using hfilled.1
  refine ⟨{ path with names := front ++ [Path.stem name ++ suffix] }, ?_, ?_⟩
  · rw [Path.withSuffix?, hlast, hsome, hnames]
    simp [Path.stem]
  · have hsplit : ∀ step ∈ front ++ [Path.stem name ++ suffix],
        step ∈ path.names ∨ step = Path.stem name ++ suffix := by
      intro step hstep
      rw [hnames]
      rcases List.mem_append.mp hstep with hstep | hstep
      · exact .inl (List.mem_append_left _ hstep)
      · exact .inr (List.mem_singleton.mp hstep)
    have hnormal : Path.Normal { path with names := front ++ [Path.stem name ++ suffix] } := by
      refine ⟨hleads.normal.unrooted, fun step hstep => ?_⟩
      rcases hsplit step hstep with hstep | rfl
      · exact hleads.normal.steps step hstep
      · exact hother.toIsStep
    refine ⟨hnormal, fun step hstep => ?_, ?_, hhoused.free _ hmod suffix hsuffix⟩
    · rcases hsplit step hstep with hstep | rfl
      · exact hleads.noNull step hstep
      · exact hother.noNull
    · rw [place?_eq_foldlM hnormal, sibling_append]
      simp only [List.foldlM_append, hfront]
      exact (bind_pure _).trans (step?_of_isFolder hhere hother.notBack)

end

end Directory

/-- The paths of the files of a mod lead to these. -/
structure PatchFiles.Lead (files : PatchFiles) (directory : Directory) (place : Place) : Prop where
  mod : directory.Leads files.mod place
  script : directory.Leads files.script (sibling place ".patch")
  pristine : directory.Leads files.pristine (sibling place ".unpatched")
  runLog : directory.Leads files.runLog (sibling place ".patchlog")

namespace Directory

variable {directory : Directory} {path : Path} {place other : Place}

/-- A mod stands at a place, and the files of the mod are these. -/
structure ModAt (directory : Directory) (files : PatchFiles) (place : Place) : Prop where
  lead : files.Lead directory place
  mod : directory.IsMod place
  found : PatchFiles.of? files.mod = some files
  name : files.mod.name = place.getLast?.getD ""

theorem Housed.exists_modAt (hhoused : directory.Housed) (hmod : directory.IsMod place)
    (hleads : directory.Leads path place) :
    ∃ files, files.mod = path ∧ directory.ModAt files place := by
  obtain ⟨script, hscript, hscriptLeads⟩ :=
    hhoused.leads_sibling hmod hleads (by decide : ".patch" ∈ patchSuffixes)
  obtain ⟨pristine, hpristine, hpristineLeads⟩ :=
    hhoused.leads_sibling hmod hleads (by decide : ".unpatched" ∈ patchSuffixes)
  obtain ⟨runLog, hrunLog, hrunLogLeads⟩ :=
    hhoused.leads_sibling hmod hleads (by decide : ".patchlog" ∈ patchSuffixes)
  obtain ⟨front, here, name, hnames, -, -, rfl⟩ :=
    hhoused.exists_way hmod hleads.normal hleads.leads
  refine ⟨⟨path, script, pristine, runLog⟩, rfl,
    ⟨hleads, hscriptLeads, hpristineLeads, hrunLogLeads⟩, hmod, ?_, by simp [Path.name, hnames]⟩
  rw [PatchFiles.of?, hscript, hpristine, hrunLog]
  rfl

theorem ModAt.name_ne_empty {files : PatchFiles} (hmodAt : directory.ModAt files place) :
    files.mod.name ≠ "" := by
  rw [hmodAt.name]
  intro hempty
  have hsuffix := hmodAt.mod.suffix
  rw [hempty] at hsuffix
  exact absurd hsuffix (by decide)

/-- The place of a file of a mod tells the stem and the suffix. -/
theorem IsMod.sibling_inj (hplace : directory.IsMod place) (hother : directory.IsMod other)
    {first second : String} (hfirst : first ∈ patchSuffixes) (hsecond : second ∈ patchSuffixes)
    (hsame : sibling place first = sibling other second) :
    sibling place "" = sibling other "" ∧ first = second := by
  obtain ⟨here, name, rfl, hname⟩ := hplace.exists_name
  obtain ⟨here', name', rfl, hname'⟩ := hother.exists_name
  rw [sibling_append, sibling_append] at hsame
  obtain ⟨rfl, hnames⟩ := List.append_inj' hsame rfl
  have hcut := Path.cutSuffix_stem_append (suffix_ne_empty hname) (isSuffix_of_mem hfirst)
  rw [(List.cons.inj hnames).1,
    Path.cutSuffix_stem_append (suffix_ne_empty hname') (isSuffix_of_mem hsecond)] at hcut
  obtain ⟨hstem, hsuffix⟩ := Prod.mk.inj hcut
  rw [sibling_append, sibling_append, hstem]
  exact ⟨rfl, hsuffix.symm⟩

theorem IsMod.sibling_ne (hmod : directory.IsMod place) {first second : String}
    (hfirst : first ∈ patchSuffixes) (hsecond : second ∈ patchSuffixes)
    (hne : first ≠ second) : sibling place first ≠ sibling place second :=
  fun hsame => hne (hmod.sibling_inj hmod hfirst hsecond hsame).2

/-- Different mods have different files. -/
theorem Arranged.sibling_ne (harranged : directory.Arranged) (hplace : directory.IsMod place)
    (hother : directory.IsMod other) (hne : place ≠ other) {first second : String}
    (hfirst : first ∈ patchSuffixes) (hsecond : second ∈ patchSuffixes) :
    sibling place first ≠ sibling other second := fun hsame =>
  hne (harranged.stems _ _ hplace hother
    (hplace.sibling_inj hother hfirst hsecond hsame).1)

theorem IsMod.suffix_sibling (hmod : directory.IsMod place) {suffix : String}
    (hsuffix : suffix ∈ patchSuffixes) :
    (Path.cutSuffix ((sibling place suffix).getLast?.getD "")).2 = suffix := by
  obtain ⟨here, name, rfl, hname⟩ := hmod.exists_name
  rw [sibling_append, List.getLast?_concat, Option.getD_some,
    Path.cutSuffix_stem_append (suffix_ne_empty hname) (isSuffix_of_mem hsuffix)]

/-- No other file of a mod has the name of a mod. -/
theorem not_mem_modSuffixes {suffix : String} (hsuffix : suffix ∈ patchSuffixes) :
    suffix ∉ modSuffixes := by
  have hapart : ∀ text ∈ patchSuffixes, text ∉ modSuffixes := by decide
  exact hapart suffix hsuffix

theorem IsMod.ne_sibling (hplace : directory.IsMod place) (hother : directory.IsMod other)
    {suffix : String} (hsuffix : suffix ∈ patchSuffixes) : place ≠ sibling other suffix := by
  rintro rfl
  have hmod := hplace.suffix
  rw [hother.suffix_sibling hsuffix] at hmod
  exact not_mem_modSuffixes hsuffix hmod

/-! ## Writing files -/

/-- The directory with a file written at a place. -/
def put (directory : Directory) (place : Place) (content : Content) : Directory :=
  { directory with files := directory.files.put place content }

theorem isFolder_congr {after : Directory} (hfolders : after.folders = directory.folders)
    (place : Place) : after.isFolder place = directory.isFolder place := by
  rw [isFolder, isFolder, hfolders]

theorem place?_congr {after : Directory} (hfolders : after.folders = directory.folders)
    (path : Path) : after.place? path = directory.place? path := by
  have hstep : after.step? = directory.step? := by
    funext here name
    rw [step?, step?, isFolder_congr hfolders]
  rw [place?, place?, hstep]

theorem hasFolder_congr {after : Directory} (hfolders : after.folders = directory.folders)
    (path : Path) : after.hasFolder path = directory.hasFolder path := by
  rw [hasFolder, hasFolder, place?_congr hfolders, funext (isFolder_congr hfolders)]

theorem Leads.congr {after : Directory} (hleads : directory.Leads path place)
    (hfolders : after.folders = directory.folders) : after.Leads path place :=
  { hleads with
    leads := (place?_congr hfolders path).trans hleads.leads
    noFolder := (isFolder_congr hfolders place).trans hleads.noFolder }

theorem Leads.has (hleads : directory.Leads path place) :
    directory.has path = directory.files.has place := by
  rw [Directory.has, content?, hasFolder, hleads.leads]
  simp [Entries.has, hleads.noFolder]

theorem Leads.content? (hleads : directory.Leads path place) :
    directory.content? path = directory.files.get? place := by
  rw [Directory.content?, hleads.leads]
  rfl

theorem Leads.write? (hleads : directory.Leads path place) (content : Content) :
    directory.write? path content = some (directory.put place content) := by
  rw [Directory.write?, hleads.leads]
  simp [hleads.noFolder, put]

theorem Leads.noNull_text (hleads : directory.Leads path place) :
    path.text.toList.contains '\x00' = false := by
  rw [List.contains_eq_mem, decide_eq_false_iff_not, Path.text, hleads.normal.unrooted]
  split
  · decide
  · rw [String.empty_append]
    exact Path.not_mem_joined (by decide) hleads.noNull

theorem get?_put_eq (content : Content) (here other : Place) :
    (directory.put here content).files.get? other =
      if here = other then some content else directory.files.get? other := by
  rw [put, Entries.get?_put]
  simp only [beq_iff_eq]

end Directory

theorem PatchFiles.Lead.congr {files : PatchFiles} {directory after : Directory} {place : Place}
    (hfiles : files.Lead directory place) (hfolders : after.folders = directory.folders) :
    files.Lead after place :=
  ⟨hfiles.mod.congr hfolders, hfiles.script.congr hfolders, hfiles.pristine.congr hfolders,
    hfiles.runLog.congr hfolders⟩

theorem Directory.ModAt.congr {files : PatchFiles} {directory after : Directory} {place : Place}
    (hmodAt : directory.ModAt files place) (hfolders : after.folders = directory.folders)
    (hfile : after.files.has place = true) : after.ModAt files place :=
  ⟨hmodAt.lead.congr hfolders, ⟨hfile, hmodAt.mod.suffix⟩, hmodAt.found, hmodAt.name⟩

end Patchwork
