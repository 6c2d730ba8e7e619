import Patchwork.Proofs.Entries
import Patchwork.Proofs.Workspace.Later

/-!
# Which mods runs find

The files that runs write have no names of mods, so discovery finds the same mods
before and after any runs.  A path that is given, in a load order or by a command, has
to lead to a mod or to nothing that a run writes.
-/

namespace Patchwork

/-! ## Names in order -/

namespace Text

theorem pairwise_sorted (texts : List String) : (sorted texts).Pairwise (· ≤ ·) := by
  have htrans : ∀ first second third : String, decide (first ≤ second) = true →
      decide (second ≤ third) = true → decide (first ≤ third) = true := by
    intro first second third hfirst hsecond
    exact decide_eq_true (String.le_trans (of_decide_eq_true hfirst) (of_decide_eq_true hsecond))
  have htotal : ∀ first second : String,
      (decide (first ≤ second) || decide (second ≤ first)) = true := by
    intro first second
    rw [Bool.or_eq_true, decide_eq_true_iff, decide_eq_true_iff]
    exact String.le_total first second
  exact (List.pairwise_mergeSort htrans htotal texts).imp of_decide_eq_true

theorem sorted_perm (texts : List String) : (sorted texts).Perm texts :=
  List.mergeSort_perm _ _

theorem filter_sorted (keep : String → Bool) (texts : List String) :
    (sorted texts).filter keep = sorted (texts.filter keep) := by
  refine List.Perm.eq_of_pairwise (fun _ _ _ _ hfirst hsecond => String.le_antisymm hfirst hsecond)
    ((pairwise_sorted texts).filter keep) (pairwise_sorted _) ?_
  exact ((sorted_perm texts).filter keep).trans (sorted_perm _).symm

end Text

namespace Directory

variable {start now : Directory} {place mod : Place} {path folder : Path}

/-- The path of a file in a folder. -/
def inFolder (folder : Path) (name : String) : Path :=
  { folder with names := folder.names ++ [name] }

@[simp]
theorem suffix_inFolder (folder : Path) (name : String) :
    (inFolder folder name).suffix = (Path.cutSuffix name).2 := by
  simp [inFolder, Path.suffix, Path.name]

/-- The mods with one suffix are found among the mods. -/
theorem filter_found (folder : Path) (names : List String) {extension : String}
    (hextension : extension ∈ modSuffixes) :
    ((Text.sorted names).map (inFolder folder)).filter (fun path => path.suffix == extension) =
      ((Text.sorted (names.filter isModName)).map (inFolder folder)).filter
        fun path => path.suffix == extension := by
  rw [List.filter_map, List.filter_map, ← Text.filter_sorted, List.filter_filter]
  congr 1
  refine List.filter_congr fun name _ => ?_
  have hmod : (Path.cutSuffix name).2 = extension → isModName name = true := by
    rintro rfl
    exact List.contains_iff_mem.mpr hextension
  simpa using hmod

theorem Reworked.modsIn_eq (hreworked : start.Reworked now) (folder : Path) :
    modsIn now folder modSuffixes = modsIn start folder modSuffixes := by
  rw [modsIn, modsIn, place?_congr hreworked.folders]
  cases start.place? folder with
  | none => rfl
  | some here =>
    have hsuffixes : modSuffixes.eraseDups = modSuffixes := by decide
    dsimp only
    rw [hsuffixes]
    refine List.flatMap_congr fun extension hextension => ?_
    exact (filter_found folder (now.namesIn here) hextension).trans
      ((hreworked.names here).symm ▸ (filter_found folder (start.namesIn here) hextension).symm)

theorem mem_namesIn {here : Place} {name : String} (hname : name ∈ start.namesIn here) :
    start.files.has (here ++ [name]) = true := by
  obtain ⟨⟨place, content⟩, hentry, hname⟩ := List.mem_filterMap.mp hname
  dsimp only at hname
  split at hname
  · rename_i hhere
    have hplace : here ++ [name] = place := by
      rw [← eq_of_beq hhere]
      exact List.dropLast_append_getLast? name hname
    rw [hplace]
    exact Entries.has_of_mem hentry
  · cases hname

theorem isRooted_of_place? (hplace : start.place? path = some place) : path.isRooted = false := by
  cases hrooted : path.isRooted with
  | false => rfl
  | true => simp [place?, hrooted] at hplace

/-- What is found in a folder are paths to mods. -/
theorem Proper.leads_of_mem_modsIn (hproper : start.Proper) {text : String}
    (hfolder : start.hasFolder (.ofText text) = true)
    (hpath : path ∈ modsIn start (.ofText text) modSuffixes) :
    ∃ place, start.IsMod place ∧ start.Leads path place := by
  obtain ⟨here, hplace, hhere⟩ := (Option.any_eq_true _ _).mp hfolder
  have hnormal := Path.normal_ofText (isRooted_of_place? hplace)
  rw [modsIn, hplace] at hpath
  obtain ⟨extension, hextension, hpath⟩ := List.mem_flatMap.mp hpath
  obtain ⟨hpath, hsuffix⟩ := List.mem_filter.mp hpath
  obtain ⟨name, hname, hpathName⟩ := List.mem_map.mp hpath
  obtain rfl : inFolder (.ofText text) name = path := hpathName
  have hfile := mem_namesIn ((Text.sorted_perm _).mem_iff.mp hname)
  have hfileName := hproper.isFileName (.inl hfile)
  have hmod : start.IsMod (here ++ [name]) := by
    refine ⟨hfile, ?_⟩
    have hmodName := List.mem_eraseDups.mp hextension
    rw [← eq_of_beq hsuffix, suffix_inFolder] at hmodName
    simpa using hmodName
  have hpathNormal : (inFolder (.ofText text) name).Normal := by
    refine ⟨hnormal.unrooted, fun step hstep => ?_⟩
    obtain hstep | hstep := List.mem_append.mp hstep
    · exact hnormal.steps step hstep
    · exact List.mem_singleton.mp hstep ▸ hfileName.toIsStep
  refine ⟨here ++ [name], hmod, hproper.leads hpathNormal ?_ hfile⟩
  rw [place?_eq_foldlM hnormal] at hplace
  rw [place?_eq_foldlM hpathNormal, inFolder, List.foldlM_append, hplace]
  exact (bind_pure _).trans (step?_of_isFolder hhere hfileName.notBack)

/-! ## Paths that are given -/

/-- A path to a mod, or to nothing that is there or that a run writes. -/
def Steady (directory : Directory) (path : Path) : Prop :=
  ∀ place, directory.place? path = some place → directory.IsMod place ∨
    (¬ directory.Present place ∧ ∀ mod, directory.IsMod mod →
      place ≠ sibling mod ".unpatched" ∧ place ≠ sibling mod ".patchlog")

theorem has_eq_true_iff (directory : Directory) (path : Path) :
    directory.has path = true ↔
      ∃ place, directory.place? path = some place ∧ directory.Present place := by
  rw [has, content?, hasFolder, Bool.or_eq_true, Option.any_eq_true]
  cases directory.place? path with
  | none => simp
  | some place => simp [Present, Entries.has]

/-- A given path that leads to something leads to a mod. -/
theorem Steady.exists_isMod (hsteady : start.Steady path) (hhas : start.has path = true) :
    ∃ place, start.IsMod place ∧ start.place? path = some place := by
  obtain ⟨place, hplace, hpresent⟩ := (has_eq_true_iff start path).mp hhas
  exact ⟨place, (hsteady place hplace).resolve_right fun habsent => habsent.1 hpresent, hplace⟩

/-- Runs do not change where a given path leads. -/
theorem Reworked.has_eq (hreworked : start.Reworked now) (hsteady : start.Steady path) :
    now.has path = start.has path := by
  rw [Bool.eq_iff_iff, has_eq_true_iff, has_eq_true_iff]
  refine exists_congr fun place => ?_
  rw [place?_congr hreworked.folders]
  refine and_congr_right fun hplace => ?_
  obtain hmod | ⟨habsent, hapart⟩ := hsteady place hplace
  · exact iff_of_true (.inl (hreworked.present place hmod)) (.inl hmod.present)
  · have hsame : now.files.get? place = start.files.get? place :=
      hreworked.others place fun mod hmod =>
        ⟨fun heq => habsent (.inl (heq ▸ hmod.present)), hapart mod hmod⟩
    rw [Present, Present, Entries.has, hsame, isFolder_congr hreworked.folders]
    rfl

/-- Settings for a directory of mods: these have the usual suffixes, and a load order
lists mods, or what is not there. -/
structure Serves (directory : Directory) (settings : Settings) : Prop where
  arranged : directory.Arranged
  extensions : settings.extensions = .ok modSuffixes
  order : ∀ order folder, settings.loadOrder = .ok order → settings.modsFolder = .ok folder →
    ∀ text, .str text ∈ order → directory.Steady (folder.join (.ofText text))

/-- The same for a directory where several mods may have one stem. -/
structure Suits (directory : Directory) (settings : Settings) : Prop where
  housed : directory.Housed
  extensions : settings.extensions = .ok modSuffixes
  order : ∀ order folder, settings.loadOrder = .ok order → settings.modsFolder = .ok folder →
    ∀ text, .str text ∈ order → directory.Steady (folder.join (.ofText text))

theorem Serves.suits {settings : Settings} (hserves : start.Serves settings) :
    start.Suits settings :=
  ⟨hserves.arranged.housed, hserves.extensions, hserves.order⟩

theorem Reworked.listed?_eq (hreworked : start.Reworked now) (folder : Path)
    {order : List Plain}
    (horder : ∀ text, .str text ∈ order → start.Steady (folder.join (.ofText text))) :
    now.listed? folder order = start.listed? folder order := by
  induction order with
  | nil => rfl
  | cons value rest ih =>
    rw [listed?, listed?, ih fun text htext => horder text (List.mem_cons_of_mem _ htext)]
    cases value with
    | str text =>
      rw [Settings.pathOf]
      simp only [Except.toOption, Option.bind_eq_bind, Option.bind_some]
      rw [hreworked.has_eq (horder text List.mem_cons_self)]
    | _ => rfl

theorem Reworked.discovered?_eq {settings : Settings} (hreworked : start.Reworked now)
    (hsuits : start.Suits settings) :
    now.discovered? settings = start.discovered? settings := by
  rw [discovered?, discovered?]
  cases horder : settings.loadOrder with
  | error fault => rfl
  | ok order =>
    cases hfolder : settings.modsFolder with
    | error fault => cases order <;> rfl
    | ok folder =>
      cases order with
      | nil =>
        rw [hsuits.extensions]
        simp only [Except.toOption, Option.bind_eq_bind, Option.bind_some]
        rw [hasFolder_congr hreworked.folders, hreworked.modsIn_eq folder]
      | cons first rest =>
        exact hreworked.listed?_eq folder (hsuits.order _ folder horder hfolder)

theorem Proper.exists_leads (hproper : start.Proper)
    (hnormal : path.isRooted = false → path.Normal) (hsteady : start.Steady path)
    (hhas : start.has path = true) : ∃ place, start.IsMod place ∧ start.Leads path place := by
  obtain ⟨place, hmod, hplace⟩ := hsteady.exists_isMod hhas
  have hpath := hnormal (isRooted_of_place? hplace)
  exact ⟨place, hmod, hproper.leads hpath hplace hmod.present⟩

theorem of_mem_listed? {order : List Plain} {paths : List Path}
    (hpaths : start.listed? folder order = some paths) (hpath : path ∈ paths) :
    ∃ text, .str text ∈ order ∧ path = folder.join (.ofText text) ∧ start.has path = true := by
  induction order generalizing paths with
  | nil =>
    rw [listed?] at hpaths
    rw [← Option.some.inj hpaths] at hpath
    cases hpath
  | cons value rest ih =>
    obtain ⟨first, hfirst, hrest⟩ := Option.bind_eq_some_iff.mp hpaths
    obtain ⟨others, hothers, hall⟩ := Option.bind_eq_some_iff.mp hrest
    obtain ⟨text, rfl, rfl⟩ : ∃ text, value = .str text ∧ .ofText text = first := by
      cases value with
      | str text => exact ⟨text, rfl, Option.some.inj hfirst⟩
      | _ => cases hfirst
    have hcases : path ∈ others ∨
        (path = folder.join (.ofText text) ∧ start.has path = true) := by
      rw [← Option.some.inj hall] at hpath
      split at hpath
      · rename_i hhas
        obtain rfl | hmem := List.mem_cons.mp hpath
        · exact .inr ⟨rfl, hhas⟩
        · exact .inl hmem
      · exact .inl hpath
    obtain hmem | ⟨hsame, hhas⟩ := hcases
    · obtain ⟨other, hother, hjoined⟩ := ih hothers hmem
      exact ⟨other, List.mem_cons_of_mem _ hother, hjoined⟩
    · exact ⟨text, List.mem_cons_self, hsame, hhas⟩

theorem exists_text_of_modsFolder {settings : Settings}
    (hfolder : settings.modsFolder.toOption = some folder) : ∃ text, folder = .ofText text := by
  rw [Settings.modsFolder] at hfolder
  cases hvalue : settings.valueOf "mods_dir" with
  | str text =>
    rw [hvalue] at hfolder
    exact ⟨text, (Option.some.inj hfolder).symm⟩
  | _ =>
    rw [hvalue] at hfolder
    cases hfolder

theorem eq_ok_of_toOption {Fault Result : Type} {outcome : Except Fault Result} {result : Result}
    (houtcome : outcome.toOption = some result) : outcome = .ok result := by
  cases outcome with
  | ok _ => exact congrArg Except.ok (Option.some.inj houtcome)
  | error _ => cases houtcome

/-- Everything that is loaded is a mod. -/
theorem Suits.leads_of_mem {settings : Settings} (hsuits : start.Suits settings)
    {paths : List Path} (hpaths : start.discovered? settings = some paths)
    (hpath : path ∈ paths) : ∃ place, start.IsMod place ∧ start.Leads path place := by
  obtain ⟨order, horder, hpaths⟩ := Option.bind_eq_some_iff.mp hpaths
  cases order with
  | nil =>
    obtain ⟨folder, hfolder, hpaths⟩ := Option.bind_eq_some_iff.mp hpaths
    obtain ⟨text, rfl⟩ := exists_text_of_modsFolder hfolder
    cases hhas : start.hasFolder (.ofText text) with
    | false =>
      rw [hhas, Bool.not_false, if_pos rfl] at hpaths
      rw [← Option.some.inj hpaths] at hpath
      cases hpath
    | true =>
      rw [hhas, hsuits.extensions] at hpaths
      rw [← Option.some.inj hpaths] at hpath
      exact hsuits.housed.leads_of_mem_modsIn hhas hpath
  | cons first rest =>
    obtain ⟨folder, hfolder, hpaths⟩ := Option.bind_eq_some_iff.mp hpaths
    obtain ⟨base, rfl⟩ := exists_text_of_modsFolder hfolder
    obtain ⟨text, htext, rfl, hhas⟩ := of_mem_listed? hpaths hpath
    exact hsuits.housed.exists_leads Path.normal_join_ofText
      (hsuits.order _ _ (eq_ok_of_toOption horder) (eq_ok_of_toOption hfolder) text htext) hhas

end Directory

end Patchwork
