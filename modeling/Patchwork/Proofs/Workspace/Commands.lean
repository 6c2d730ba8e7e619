import Patchwork.Proofs.Workspace.Patching

/-!
# What a command to run a mod does

A command loads all mods and runs one of them.  If it cannot begin, the directory stays
as it is, and otherwise it becomes what the run makes of it.
-/

namespace Patchwork

/-! ## The run of a command -/

namespace Command

/-- The run that a command asks for: its result, or what is in its way. -/
def outcome (mod : String) (settings : Settings) : Job (Except String RunResult) := do
  let path ← findMod settings (.ofText mod)
  if !(← get).directory.has path then return .error ("Mod not found: " ++ path.text)
  match ← Job.attempt (do loadRepository (← discover)) with
  | .error fault =>
    if fault.isReported then return .error ("Could not load mods: " ++ fault.message)
    else throw fault
  | .ok (repository, pool) =>
    let patcher := Patcher.create repository pool (← seed)
    let (result, _) ← runPatch patcher settings.logsRuns path
    return .ok result

/-- What a command says about its run. -/
def answer : Except String RunResult → Job Answer
  | .error complaint => return { code := 1, complaints := [complaint] }
  | .ok result => runAnswer result

/-- A command runs a mod and says what came of it. -/
theorem run_eq (mod : String) (settings : Settings) :
    run mod settings = outcome mod settings >>= answer := by
  rw [run, outcome]
  simp only [bind_assoc]
  refine bind_congr fun path => bind_congr fun workspace => ?_
  split
  · rw [pure_bind]
    rfl
  · simp only [bind_assoc]
    refine bind_congr fun loaded => ?_
    cases loaded with
    | error fault =>
      dsimp only
      split
      · rw [pure_bind]
        rfl
      · rfl
    | ok loaded =>
      simp only [bind_assoc, pure_bind]
      rfl

end Command

namespace Directory

/-- Where the mod is that a command asks for: at the path itself or in the folder of
the mods. -/
def found? (directory : Directory) (settings : Settings) (asked : Path) : Option Path :=
  if asked.isRooted || directory.has asked then some asked
  else settings.modsFolder.toOption.map fun folder => folder.join asked

/-- The place of the mod that a command asks for, if it is there. -/
def asked? (directory : Directory) (settings : Settings) (mod : String) : Option Place := do
  let path ← directory.found? settings (.ofText mod)
  if directory.has path then directory.place? path else none

/-- What a run of the mod at a place saves. -/
def saved? (directory : Directory) (settings : Settings) (place : Place) : Option Plain := do
  let paths ← directory.discovered? settings
  let (repository, pool) ← directory.load? paths
  let (seed, _) ← settings.seed.toOption
  (Patcher.create repository pool seed).saved? directory place

end Directory

section

variable {frame : Workspace} {directory : Directory} {settings : Settings} {place : Place}
  {files : PatchFiles} {mod : String}

theorem gives_findMod (asked : Path) :
    Job.Gives frame (Command.findMod settings asked) directory
      (directory.found? settings asked) directory := by
  rw [Command.findMod, Directory.found?]
  apply Job.Ends.get_bind
  intro journal
  rw [Workspace.directory_at_]
  cases asked.isRooted || directory.has asked with
  | true => exact Job.gives_pure asked
  | false =>
    simp only [Bool.false_eq_true, if_false]
    rw [Option.map_eq_bind]
    exact (Job.gives_shaped _).bind_some fun folder _ => Job.gives_pure _

theorem gives_seed (hsettings : frame.settings = some settings) :
    Job.Gives frame seed directory (settings.seed.toOption.map Prod.fst) directory := by
  rw [seed, Option.map_eq_bind]
  apply (gives_settings hsettings).andThen
  apply (Job.gives_shaped _).bind_some
  intro found _
  exact (Job.gives_noteAll _).andThen (Job.gives_pure _)

theorem saved?_eq (directory : Directory) (settings : Settings) (place : Place) :
    directory.saved? settings place =
      (directory.discovered? settings >>= directory.load?) >>= fun loaded =>
        settings.seed.toOption.map Prod.fst >>= fun seed =>
          (Patcher.create loaded.1 loaded.2 seed).saved? directory place := by
  rw [Directory.saved?, bind_assoc]
  refine bind_congr fun paths => bind_congr fun loaded => ?_
  rw [Option.map_eq_bind, Option.bind_eq_bind, Option.bind_eq_bind, Option.bind_assoc]
  rfl

/-- A command that asks for a mod that is not there does nothing. -/
theorem ends_outcome_of_missing (hmissing : directory.asked? settings mod = none) :
    Job.Ends frame (Command.outcome mod settings) directory fun result after =>
      isSaved (result.bind Except.toOption) = false ∧ after = directory := by
  rw [Command.outcome]
  refine (gives_findMod _).bind (fun path hpath => ?_) fun _ => ⟨rfl, rfl⟩
  have hnone : directory.has path = false := by
    rw [Directory.asked?, hpath] at hmissing
    simp only [Option.bind_eq_bind, Option.bind_some] at hmissing
    cases hhas : directory.has path with
    | false => rfl
    | true =>
      rw [hhas, if_pos rfl] at hmissing
      rw [Directory.has, Directory.content?, Directory.hasFolder, hmissing] at hhas
      exact Bool.noConfusion hhas
  apply Job.Ends.get_bind
  intro journal
  rw [Workspace.directory_at_, hnone]
  exact (Job.gives_pure _).ends ⟨rfl, rfl⟩

theorem ends_outcome (hsettings : frame.settings = some settings)
    (hmodAt : directory.ModAt files place)
    (hfound : directory.found? settings (.ofText mod) = some files.mod)
    (hpaths : ∀ paths, directory.discovered? settings = some paths → ∀ path ∈ paths,
      ∃ files place, files.mod = path ∧ directory.ModAt files place) :
    Job.Ends frame (Command.outcome mod settings) directory fun result after =>
      isSaved (result.bind Except.toOption) = (directory.saved? settings place).isSome ∧
        (directory.saved? settings place = none ∧ after = directory ∨
          directory.Patched place (directory.saved? settings place) after) := by
  have hpresent : directory.has files.mod = true :=
    hmodAt.lead.mod.has.trans hmodAt.mod.present
  have hload : Job.Gives frame (do loadRepository (← discover)) directory
      (directory.discovered? settings >>= directory.load?) directory :=
    (gives_discover hsettings).bind_some fun paths hfoundPaths =>
      gives_loadRepository (hpaths paths hfoundPaths)
  have hfind : Job.Gives frame (Command.findMod settings (.ofText mod)) directory _ directory :=
    gives_findMod _
  rw [hfound] at hfind
  rw [Command.outcome]
  refine hfind.andThen (Job.Ends.get_bind fun journal => ?_)
  rw [Workspace.directory_at_, hpresent]
  -- If the mods cannot be loaded or there is no seed, no run begins.
  refine hload.attempt_bind ?_
  rintro outcome between ⟨hloaded, rfl⟩
  cases outcome with
  | error fault =>
    have hsaved : between.saved? settings place = none := by
      rw [saved?_eq, ← hloaded]
      rfl
    rw [hsaved]
    dsimp only
    split
    · exact (Job.gives_pure _).ends ⟨rfl, .inl ⟨rfl, rfl⟩⟩
    · exact (Job.gives_throw fault).ends ⟨rfl, .inl ⟨rfl, rfl⟩⟩
  | ok loaded =>
    have hsaved : between.saved? settings place = settings.seed.toOption.map Prod.fst >>=
        fun seed => (Patcher.create loaded.1 loaded.2 seed).saved? between place := by
      rw [saved?_eq, ← hloaded]
      rfl
    rw [hsaved]
    refine (gives_seed hsettings).bind (fun seed hseed => ?_) fun hnone => ?_
    · rw [hseed]
      refine (ends_runPatch hmodAt _ _).bind (fun result after hrun => ?_) fun after hrun => ?_
      · exact (Job.gives_pure _).ends ⟨hrun.1, .inr hrun.2⟩
      · exact ⟨hrun.1, .inr hrun.2⟩
    · rw [hnone]
      exact ⟨rfl, .inl ⟨rfl, rfl⟩⟩

theorem ends_headerLines (title : String) (entries : List Plain) :
    Job.Ends frame (Command.headerLines title entries) directory fun _ after =>
      after = directory := by
  rw [Command.headerLines]
  split
  · exact (Job.gives_pure _).ends rfl
  · exact (Job.gives_shaped _).bind (fun _ _ => (Job.gives_pure _).ends rfl) fun _ => rfl

theorem ends_answer (outcome : Except String RunResult) :
    Job.Ends frame (Command.answer outcome) directory fun _ after => after = directory := by
  cases outcome with
  | error complaint => exact (Job.gives_pure _).ends rfl
  | ok result =>
    rw [Command.answer, Command.runAnswer]
    refine (ends_headerLines _ _).bind (fun dependencies between hbetween => ?_) fun _ h => h
    refine (ends_headerLines _ _).bind (fun references after hafter => ?_)
      fun _ hafter => hafter.trans hbetween
    exact (Job.gives_pure _).ends (hafter.trans hbetween)

/-- A command does to the directory what its run does. -/
theorem ends_run {described : Directory → Prop}
    (houtcome : Job.Ends frame (Command.outcome mod settings) directory fun _ after =>
      described after) :
    Job.Ends frame (Command.run mod settings) directory fun _ after => described after := by
  rw [Command.run_eq]
  refine houtcome.bind (fun outcome between hbetween => ?_) fun _ hafter => hafter
  exact (ends_answer outcome).mono fun _ after hafter => hafter ▸ hbetween

end

end Patchwork
