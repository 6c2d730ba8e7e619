import Patchwork.Proofs.Workspace.Loading

/-!
# What a run writes

A run starts from the copy of its mod, which it makes if there is none, and saves what
the script makes of it.  Of all files it only changes the mod, the copy if there was
none, and the log.
-/

namespace Patchwork

/-- The document a script makes of a mod, unless it fails or stops. -/
def Patcher.savedDocument? (patcher : Patcher) (mod : Mod) (lines : List String) :
    Option Plain :=
  let run := executeLines 1 0 lines (patcher.start mod)
  if run.1.2.isSome || run.2.world.stopping then none
  else some (ModFile.ofMod run.2.world.pool (run.2.world.active.getD mod)).document

/-- The document a script makes of what a file states. -/
def Patcher.savedFrom? (patcher : Patcher) (file : ModFile) (lines : List String) :
    Option Plain :=
  let (pool, mod) := file.toMod patcher.world.pool
  let ready := { patcher with world := { patcher.world with pool := pool, journal := #[] } }
  ready.savedDocument? mod lines

namespace Directory

/-- What the copy of the mod at a place holds when a run starts. -/
def pristine? (directory : Directory) (place : Place) : Option Content :=
  (directory.files.get? (sibling place ".unpatched")).or (directory.files.get? place)

/-- The directory with a copy of the mod at a place. -/
def backedUp (directory : Directory) (place : Place) : Directory :=
  match directory.files.get? (sibling place ".unpatched"), directory.files.get? place with
  | none, some content => directory.put (sibling place ".unpatched") content
  | _, _ => directory

/-- The directory with a document in the file at a place, if there is one to save. -/
def withSaved (directory : Directory) (place : Place) (saved? : Option Plain) : Directory :=
  match saved? with
  | some document => directory.put place (.document document)
  | none => directory

/-- What a run of the mod at a place starts from: the mod in the copy and the lines of
the script. -/
def preparation? (directory : Directory) (place : Place) : Option (ModFile × List String) := do
  let content ← directory.pristine? place
  let file ← content.stated? (place.getLast?.getD "")
  let script ← directory.files.get? (sibling place ".patch")
  return (file, Text.scriptLines script.textOf)

/-- Whether a name is that of a mod. -/
def isModName (name : String) : Bool :=
  modSuffixes.contains (Path.cutSuffix name).2

/-- What a run of the mod at a place makes of a directory: it keeps all files but the
mod, its copy and its log, and no mods are added. -/
structure Patched (before : Directory) (place : Place) (saved? : Option Plain)
    (after : Directory) : Prop where
  folders : after.folders = before.folders
  mod : after.files.get? place =
    (saved?.map Content.document).or (before.files.get? place)
  pristine : after.files.get? (sibling place ".unpatched") = before.pristine? place
  others : ∀ other, other ≠ place → other ≠ sibling place ".unpatched" →
    other ≠ sibling place ".patchlog" → after.files.get? other = before.files.get? other
  names : ∀ here, (after.namesIn here).filter isModName = (before.namesIn here).filter isModName

end Directory

namespace Directory

variable {directory before after : Directory} {place other : Place}

theorem get?_backedUp_pristine (directory : Directory) (place : Place) :
    (directory.backedUp place).files.get? (sibling place ".unpatched") =
      directory.pristine? place := by
  rw [backedUp, pristine?]
  cases hpristine : directory.files.get? (sibling place ".unpatched") with
  | some content => exact hpristine
  | none =>
    cases directory.files.get? place with
    | none => exact hpristine
    | some content => simp [get?_put_eq]

theorem get?_backedUp_of_ne (hother : other ≠ sibling place ".unpatched") :
    (directory.backedUp place).files.get? other = directory.files.get? other := by
  rw [backedUp]
  split
  · simp [get?_put_eq, hother.symm]
  · rfl

@[simp]
theorem folders_backedUp (directory : Directory) (place : Place) :
    (directory.backedUp place).folders = directory.folders := by
  rw [backedUp]
  split <;> rfl

theorem get?_withSaved (directory : Directory) (place other : Place) (saved? : Option Plain) :
    (directory.withSaved place saved?).files.get? other =
      if place = other then (saved?.map Content.document).or (directory.files.get? other)
      else directory.files.get? other := by
  cases saved? with
  | none => simp [withSaved]
  | some document => simp [withSaved, get?_put_eq]

@[simp]
theorem folders_withSaved (directory : Directory) (place : Place) (saved? : Option Plain) :
    (directory.withSaved place saved?).folders = directory.folders := by
  cases saved? <;> rfl

/-! ## The names of the mods in a folder -/

theorem namesIn_put (directory : Directory) (place here : Place) (content : Content) :
    (directory.put place content).namesIn here =
      if directory.files.has place then directory.namesIn here
      else directory.namesIn here ++
        (if place.dropLast == here then place.getLast? else none).toList := by
  have hkeys : ∀ any : Directory, any.namesIn here = (any.files.map Prod.fst).filterMap
      fun place => if place.dropLast == here then place.getLast? else none := fun any => by
    rw [namesIn, List.filterMap_map]
    rfl
  rw [hkeys, hkeys, put, Entries.keys_put]
  cases directory.files.has place with
  | true => rfl
  | false =>
    simp only [Bool.false_eq_true, if_false, List.filterMap_append]
    rw [List.filterMap_cons]
    cases if place.dropLast == here then place.getLast? else none <;> rfl

/-- A file that is there already, or is no mod, adds no mod to a folder. -/
theorem filter_namesIn_put (content : Content) (here : Place)
    (hplace : directory.files.has place = true ∨ isModName (place.getLast?.getD "") = false) :
    ((directory.put place content).namesIn here).filter isModName =
      (directory.namesIn here).filter isModName := by
  rw [namesIn_put]
  split
  · rfl
  · rename_i hnew
    have hname := hplace.resolve_left hnew
    rw [List.filter_append]
    split
    · cases hlast : place.getLast? with
      | none => simp
      | some name =>
        rw [hlast] at hname
        simpa using hname
    · simp

/-! ## Directories after a run -/

variable {saved? : Option Plain} {content : Content}

theorem IsMod.isModName_sibling (hmod : directory.IsMod place) {suffix : String}
    (hsuffix : suffix ∈ patchSuffixes) :
    isModName ((sibling place suffix).getLast?.getD "") = false := by
  rw [isModName, hmod.suffix_sibling hsuffix, List.contains_eq_mem, decide_eq_false_iff_not]
  exact not_mem_modSuffixes hsuffix

theorem IsMod.get?_put_sibling (hplace : directory.IsMod place) (hother : directory.IsMod other)
    {suffix : String} (hsuffix : suffix ∈ patchSuffixes) (content : Content) :
    (after.put (sibling other suffix) content).files.get? place = after.files.get? place := by
  rw [get?_put_eq, if_neg fun hsame => hplace.ne_sibling hother hsuffix hsame.symm]

theorem patched_withSaved (hmod : directory.IsMod place) (saved? : Option Plain) :
    directory.Patched place saved? ((directory.backedUp place).withSaved place saved?) where
  folders := by simp
  mod := by
    rw [get?_withSaved, if_pos rfl,
      get?_backedUp_of_ne (hmod.ne_sibling hmod (by decide))]
  pristine := by
    rw [get?_withSaved, if_neg (hmod.ne_sibling hmod (by decide)), get?_backedUp_pristine]
  others other hplace hpristine _ := by
    rw [get?_withSaved, if_neg hplace.symm, get?_backedUp_of_ne hpristine]
  names here := by
    have hpristine : ∀ content, ((directory.put (sibling place ".unpatched") content).namesIn
        here).filter isModName = (directory.namesIn here).filter isModName := fun content =>
      filter_namesIn_put content here (.inr (hmod.isModName_sibling (by decide)))
    have hbackedUp : ((directory.backedUp place).namesIn here).filter isModName =
        (directory.namesIn here).filter isModName := by
      rw [backedUp]
      split
      · exact hpristine _
      · rfl
    have hpresent : (directory.backedUp place).files.has place = true := by
      rw [Entries.has, get?_backedUp_of_ne (hmod.ne_sibling hmod (by decide))]
      exact hmod.present
    rw [← hbackedUp]
    cases saved? with
    | none => rfl
    | some document => exact filter_namesIn_put _ here (.inl hpresent)

theorem IsMod.pristine?_put_log (hmod : directory.IsMod place) (content : Content) :
    (before.put (sibling place ".patchlog") content).pristine? place = before.pristine? place := by
  have hlog : sibling place ".patchlog" ≠ sibling place ".unpatched" :=
    hmod.sibling_ne (by decide) (by decide) (by decide)
  rw [pristine?, pristine?, get?_put_eq, if_neg hlog,
    hmod.get?_put_sibling hmod (by decide)]

theorem IsMod.preparation?_put_log (hmod : directory.IsMod place) (content : Content) :
    (before.put (sibling place ".patchlog") content).preparation? place =
      before.preparation? place := by
  have hlog : sibling place ".patchlog" ≠ sibling place ".patch" :=
    hmod.sibling_ne (by decide) (by decide) (by decide)
  rw [preparation?, preparation?, hmod.pristine?_put_log, get?_put_eq, if_neg hlog]

theorem IsMod.has_put_log (hmod : directory.IsMod place) (content : Content) :
    (directory.put (sibling place ".patchlog") content).files.has place = true := by
  rw [Entries.has, hmod.get?_put_sibling hmod (by decide)]
  exact hmod.present

theorem Patched.put_log (hmod : directory.IsMod place) (content : Content)
    (hpatched : before.Patched place saved? after) :
    before.Patched place saved? (after.put (sibling place ".patchlog") content) where
  folders := hpatched.folders
  mod := (hmod.get?_put_sibling hmod (by decide) content).trans hpatched.mod
  pristine := by
    have hlog : sibling place ".patchlog" ≠ sibling place ".unpatched" :=
      hmod.sibling_ne (by decide) (by decide) (by decide)
    rw [get?_put_eq, if_neg hlog, hpatched.pristine]
  others other hplace hpristine hlog := by
    rw [get?_put_eq, if_neg hlog.symm, hpatched.others other hplace hpristine hlog]
  names here := by
    rw [← hpatched.names here]
    exact filter_namesIn_put content here (.inr (hmod.isModName_sibling (by decide)))

theorem Patched.of_put_log (hmod : directory.IsMod place)
    (hpatched : (before.put (sibling place ".patchlog") content).Patched place saved? after) :
    before.Patched place saved? after where
  folders := hpatched.folders
  mod := by rw [hpatched.mod, hmod.get?_put_sibling hmod (by decide)]
  pristine := hpatched.pristine.trans (hmod.pristine?_put_log content)
  others other hplace hpristine hlog := by
    rw [hpatched.others other hplace hpristine hlog, get?_put_eq, if_neg hlog.symm]
  names here := by
    rw [hpatched.names here]
    exact filter_namesIn_put content here (.inr (hmod.isModName_sibling (by decide)))

end Directory

/-- What the patcher saves when it runs the mod at a place. -/
def Patcher.saved? (patcher : Patcher) (directory : Directory) (place : Place) :
    Option Plain := do
  let (file, lines) ← directory.preparation? place
  { patcher.reset with phase := .loading }.savedFrom? file lines

/-- Whether the result of a run says that the mod was saved. -/
def isSaved (result? : Option RunResult) : Bool :=
  result?.any fun result => result.phase == .saved

/-! ## The steps of a run -/

section

variable {frame : Workspace} {directory : Directory} {path : Path} {place : Place}
  {files : PatchFiles}

theorem runPrepared_saveTo (patcher : Patcher) (hleads : directory.Leads path place)
    (lines : List String) (mod : Mod) (result : RunResult) :
    (patcher.runPrepared (saveTo path) directory lines mod result).2.2 =
        directory.withSaved place (patcher.savedDocument? mod lines) ∧
      isSaved (some (patcher.runPrepared (saveTo path) directory lines mod result).1) =
        (patcher.savedDocument? mod lines).isSome := by
  rw [Patcher.runPrepared, Patcher.savedDocument?]
  obtain ⟨⟨executed, failure⟩, after⟩ := executeLines 1 0 lines (patcher.start mod)
  cases failure with
  | some failure => exact ⟨rfl, rfl⟩
  | none =>
    dsimp only
    cases after.world.stopping with
    | true => exact ⟨rfl, rfl⟩
    | false =>
      simp only [Option.isSome_none, Bool.or_self, Bool.false_eq_true, if_false]
      rw [Patcher.saveRun, saveTo, hleads.write?]
      exact ⟨rfl, rfl⟩

theorem ends_runScript (patcher : Patcher) (hleads : directory.Leads path place)
    (file : ModFile) (lines : List String) :
    Job.Ends frame (runScript patcher path file lines) directory fun result after =>
      after = directory.withSaved place (patcher.savedFrom? file lines) ∧
        isSaved (result.map Prod.fst) = (patcher.savedFrom? file lines).isSome := by
  rw [runScript, Patcher.savedFrom?]
  apply Job.Ends.get_bind
  intro journal
  obtain ⟨pool, mod⟩ := file.toMod patcher.world.pool
  dsimp only
  generalize { patcher with world := { patcher.world with pool := pool, journal := #[] } } = ready
  obtain ⟨hafter, hresult⟩ := runPrepared_saveTo ready hleads lines mod { mod := path.name }
  rw [← hafter, ← hresult]
  exact (Job.gives_set journal _).andThen
    ((Job.gives_noteAll _).andThen ((Job.gives_pure _).ends ⟨rfl, rfl⟩))

theorem gives_backUp (hmodAt : directory.ModAt files place) :
    Job.Gives frame (backUp files) directory (some ()) (directory.backedUp place) := by
  obtain ⟨content, hcontent⟩ := Option.isSome_iff_exists.mp hmodAt.mod.present
  rw [backUp]
  apply Job.Ends.get_bind
  intro journal
  rw [Workspace.directory_at_, hmodAt.lead.pristine.has, Entries.has, Directory.backedUp]
  cases directory.files.get? (sibling place ".unpatched") with
  | some _ => exact Job.gives_pure ()
  | none =>
    have hread : Job.Gives frame (Job.read files.mod) directory _ directory :=
      Job.gives_read hmodAt.lead.mod
    rw [hcontent] at hread ⊢
    exact hread.andThen
      ((Job.gives_write hmodAt.lead.pristine content).andThen (Job.gives_noteAll _))

theorem gives_prepareRun (hmodAt : directory.ModAt files place) :
    Job.Gives frame (prepareRun files) directory (directory.preparation? place)
      (directory.backedUp place) := by
  have hfiles := hmodAt.lead.congr (directory.folders_backedUp place)
  have hscript : (directory.backedUp place).files.get? (sibling place ".patch") =
      directory.files.get? (sibling place ".patch") :=
    Directory.get?_backedUp_of_ne
      (hmodAt.mod.sibling_ne (by decide) (by decide) (by decide))
  rw [prepareRun, Directory.preparation?, ← hmodAt.name]
  apply (gives_backUp hmodAt).andThen
  simp only [Option.bind_eq_bind]
  rw [← Option.bind_assoc, ← directory.get?_backedUp_pristine place, ← hscript]
  apply (gives_loadFile hfiles.pristine hmodAt.name_ne_empty).bind_some
  intro file _
  have hlines : Job.Gives frame (do return (file, ← Job.readScript files.script.text)) _ _ _ :=
    (Job.gives_readScript hfiles.script).bind_some fun lines _ => Job.gives_pure (file, lines)
  rw [Option.bind_eq_bind, Option.bind_map] at hlines
  exact hlines

theorem ends_patchMod (hmodAt : directory.ModAt files place) (patcher : Patcher) :
    Job.Ends frame (patchMod patcher files) directory fun result after =>
      isSaved (result.map Prod.fst) = (patcher.saved? directory place).isSome ∧
        directory.Patched place (patcher.saved? directory place) after := by
  have hpatched := Directory.patched_withSaved hmodAt.mod (patcher.saved? directory place)
  have hmod := hmodAt.lead.mod.congr (directory.folders_backedUp place)
  rw [patchMod]
  apply (Job.gives_noteAll _).andThen
  refine (gives_prepareRun hmodAt).attempt_bind ?_
  rintro outcome between ⟨hprepared, rfl⟩
  cases outcome with
  | ok prepared =>
    have hsaved : patcher.saved? directory place =
        { patcher.reset with phase := .loading }.savedFrom? prepared.1 prepared.2 := by
      rw [Patcher.saved?, ← hprepared]
      rfl
    rw [hsaved] at hpatched ⊢
    refine (ends_runScript _ hmod prepared.1 prepared.2).mono fun result after hrun => ?_
    rw [hrun.1]
    exact ⟨hrun.2, hpatched⟩
  | error fault =>
    have hsaved : patcher.saved? directory place = none := by
      rw [Patcher.saved?, ← hprepared]
      rfl
    rw [hsaved] at hpatched ⊢
    dsimp only
    split
    · exact (Job.gives_noteAll _).andThen ((Job.gives_pure _).ends ⟨rfl, hpatched⟩)
    · exact (Job.gives_throw fault).ends ⟨rfl, hpatched⟩

/-- A job with a log only differs by the file of the log. -/
theorem ends_withRunLog {Result : Type} {job : Job Result} {log : Path} {logPlace : Place}
    {described : Option Result → Directory → Prop} (hleads : directory.Leads log logPlace)
    (hjob : Job.Ends frame job (directory.put logPlace (.notices [])) described)
    (hfolders : ∀ result after, described result after → after.folders = directory.folders) :
    Job.Ends frame (withRunLog log job) directory fun result after =>
      ∃ content between, described result between ∧ after = between.put logPlace content := by
  rw [withRunLog]
  -- The log is empty while the job is done, and is written after it.
  refine Job.Ends.get_bind fun journal => (Job.gives_write hleads _).andThen ?_
  refine hjob.attempt_bind fun outcome between hdescribed => Job.Ends.get_bind fun journal => ?_
  have hafter := hleads.congr (hfolders _ _ hdescribed)
  apply (Job.gives_write hafter _).andThen
  cases outcome with
  | ok result => exact (Job.gives_pure result).ends ⟨_, between, hdescribed, rfl⟩
  | error fault => exact (Job.gives_throw fault).ends ⟨_, between, hdescribed, rfl⟩

theorem ends_runPatch (hmodAt : directory.ModAt files place) (patcher : Patcher)
    (logged : Bool) :
    Job.Ends frame (runPatch patcher logged files.mod) directory fun result after =>
      isSaved (result.map Prod.fst) = (patcher.saved? directory place).isSome ∧
        directory.Patched place (patcher.saved? directory place) after := by
  rw [runPatch]
  apply (gives_patchFiles hmodAt).andThen
  cases logged with
  | false => exact ends_patchMod hmodAt patcher
  | true =>
    have hlogged : (directory.put (sibling place ".patchlog") (.notices [])).ModAt files place :=
      hmodAt.congr rfl (hmodAt.mod.has_put_log (.notices []))
    have hsaved : ∀ content, patcher.saved? (directory.put (sibling place ".patchlog") content)
        place = patcher.saved? directory place := fun content => by
      rw [Patcher.saved?, Patcher.saved?, hmodAt.mod.preparation?_put_log]
    refine (ends_withRunLog hmodAt.lead.runLog (ends_patchMod hlogged patcher)
      fun _ _ hrun => hrun.2.folders).mono ?_
    rintro result after ⟨content, between, ⟨hresult, hpatched⟩, rfl⟩
    rw [hsaved] at hresult hpatched
    exact ⟨hresult, (hpatched.of_put_log hmodAt.mod).put_log hmodAt.mod content⟩

end

end Patchwork
