import Patchwork.Directory
import Patchwork.Mod.File
import Patchwork.Patcher
import Patchwork.Settings
import Patchwork.Text.Lines

/-!
# Workspaces

A workspace is a directory one works in, with the settings and the notices so
far.  Next to a mod file there may be the script that patches it, the log of its
last run and a copy taken before the first run.  A run starts from that copy
every time, so running a script twice is running it once.
-/

namespace Patchwork

/-- A directory, the settings once they are loaded, and the notices so far. -/
structure Workspace where
  directory : Directory := {}
  /-- The variables of the environment that override settings. -/
  overrides : Entries String String := []
  settings : Option Settings := none
  journal : Journal := #[]
  /-- The rank from which on notices are logged. -/
  rank : Nat := Level.warning.rank

/-- Something done in a workspace: a fault or a result, and the workspace after
it. -/
abbrev Job := ExceptT FileFault (StateM Workspace)

namespace Job

/-- What a value should be, or a fault. -/
def shaped {Result : Type} (outcome : Except ShapeFault Result) : Job Result :=
  match outcome with
  | .ok result => return result
  | .error fault => throw (.shape fault)

/-- Adds notices. -/
def noteAll (notices : List Notice) : Job Unit :=
  modify fun workspace => { workspace with journal := workspace.journal ++ notices.toArray }

/-- Adds a notice. -/
def note (level : Level) (source : Source) (text : String) : Job Unit :=
  noteAll [⟨level, source, text⟩]

/-- The outcome of a job, whose fault is not passed on. -/
def attempt {Result : Type} (job : Job Result) : Job (Except FileFault Result) :=
  tryCatch (do return .ok (← job)) fun fault => return .error fault

/-- Writes a file. -/
def write (path : Path) (content : Content) : Job Unit := do
  let workspace ← get
  match workspace.directory.write? path content with
  | some directory => set { workspace with directory := directory }
  | none => throw (.missing path.text)

/-- Removes a file. -/
def remove (path : Path) : Job Unit := do
  let workspace ← get
  match workspace.directory.remove? path with
  | some directory => set { workspace with directory := directory }
  | none => throw (.missing path.text)

/-- Makes sure that a text can be that of a path. -/
def checkPath (asked : String) : Job Unit :=
  if asked.toList.contains '\x00' then throw .nullCharacter else return ()

/-- What the file holds that a text leads to; if there is none, the fault names
the text as it is. -/
def readAsked (asked : String) : Job Content := do
  checkPath asked
  match (← get).directory.content? (.ofText asked) with
  | some content => return content
  | none => throw (.missing asked)

/-- What a file holds. -/
def read (path : Path) : Job Content :=
  readAsked path.text

/-- The lines of the script that a text leads to. -/
def readScript (asked : String) : Job (List String) := do
  return Text.scriptLines (← readAsked asked).textOf

end Job

/-! ## Mod files -/

/-- The mod a file states, under the name it is asked for by. -/
def loadFile (path : Path) (asked : Option String) : Job ModFile := do
  Job.checkPath path.text
  match ((← get).directory.content? path).map Content.document? with
  | none => throw (.modFile path .missing)
  | some none => throw (.modFile path .garbled)
  | some (some document) =>
    match ModFile.ofDocument path asked document with
    | .error fault => throw fault
    | .ok file =>
      Job.note .debug .modFiles ("Loaded " ++ integerText file.records.length ++
        " records for " ++ file.name.text ++ " from " ++ path.name)
      return file

/-- The notice that a mod was saved. -/
def savedNotice (path : Path) (file : ModFile) : Notice :=
  ⟨.debug, .modFiles, "Saved " ++ integerText file.records.length ++ " records for " ++
    file.name.text ++ " to " ++ path.name⟩

/-- Writes a mod file. -/
def saveFile (path : Path) (file : ModFile) : Job Unit := do
  Job.write path (.document file.document)
  Job.noteAll [savedNotice path file]

/-- Saves the mod that was patched in the file at a path. -/
def saveTo (path : Path) : Save Directory := fun pool mod directory =>
  let file := ModFile.ofMod pool mod
  match directory.write? path (.document file.document) with
  | some after => (.ok [savedNotice path file], after)
  | none => (.error (missingText path.text), directory)

/-! ## Patching -/

/-- The files of a mod: the mod itself, its script, the copy from before the
first run and the log of the last run. -/
structure PatchFiles where
  mod : Path
  script : Path
  pristine : Path
  runLog : Path

namespace PatchFiles

/-- The files of the mod at a path. -/
def of? (path : Path) : Option PatchFiles := do
  return {
    mod := path
    script := ← path.withSuffix? ".patch"
    pristine := ← path.withSuffix? ".unpatched"
    runLog := ← path.withSuffix? ".patchlog" }

/-- How far the patching of a mod has got. -/
inductive Status
  | noScript | notPatched | patched
  deriving DecidableEq, Repr

/-- The label of a status. -/
def Status.label : Status → String
  | noScript => "_"
  | notPatched => "not patched"
  | patched => "patched already"

/-- How far the patching of a mod has got. -/
def status (files : PatchFiles) (directory : Directory) : Status :=
  if !directory.has files.script then .noScript
  else if directory.has files.pristine then .patched
  else .notPatched

/-- The file a mod is loaded from: the copy from before the first run, if there
was one. -/
def source (files : PatchFiles) (directory : Directory) : Path :=
  match files.status directory with
  | .patched => files.pristine
  | _ => files.mod

end PatchFiles

/-- The files of the mod at a path. -/
def patchFiles (path : Path) : Job PatchFiles :=
  match PatchFiles.of? path with
  | some files => return files
  | none => throw (.nameless path)

/-- Copies a mod file, unless there is a copy already. -/
def backUp (files : PatchFiles) : Job Unit := do
  if !(← get).directory.has files.pristine then
    Job.write files.pristine (← Job.read files.mod)
    Job.note .info .modFiles ("Created backup " ++ files.pristine.name)

/-- The repository with one more mod. -/
def loadInto (loaded : Repository × Pool) (path : Path) : Job (Repository × Pool) := do
  let files ← patchFiles path
  let file ← loadFile (files.source (← get).directory) (some path.name)
  let (pool, mod) := file.toMod loaded.2
  return (loaded.1.add mod, pool)

/-- The mods at the given paths, in load order. -/
def loadRepository (paths : List Path) : Job (Repository × Pool) := do
  let loaded ← paths.foldlM loadInto ({}, {})
  Job.note .info .repository ("Loaded " ++ integerText loaded.1.list.length ++ " mods")
  return loaded

/-- Does a job and writes the notices it logged into a file, whatever its
outcome. -/
def withRunLog {Result : Type} (path : Path) (job : Job Result) : Job Result := do
  let start := (← get).journal.size
  Job.write path (.notices [])
  let outcome ← Job.attempt job
  let workspace ← get
  let news := workspace.journal.extract start workspace.journal.size
  Job.write path (.notices (Journal.atLeast workspace.rank news))
  match outcome with
  | .ok result => return result
  | .error fault => throw fault

/-- Makes sure that there is a copy of a mod; gives the mod in the copy and the
lines of the script. -/
def prepareRun (files : PatchFiles) : Job (ModFile × List String) := do
  backUp files
  let file ← loadFile files.pristine (some files.mod.name)
  return (file, ← Job.readScript files.script.text)

/-- A fault that a run reports as its failure. -/
def FileFault.isReported : FileFault → Bool
  | missing _ => true
  | nullCharacter => false
  | modFile _ _ => true
  | nameless _ => false
  | shape _ => false
  | scan _ => false

/-- Runs the lines of a script on a mod and saves it at a path. -/
def runScript (patcher : Patcher) (path : Path) (file : ModFile) (lines : List String) :
    Job (RunResult × Patcher) := do
  let workspace ← get
  let (pool, mod) := file.toMod patcher.world.pool
  let ready := { patcher with world := { patcher.world with pool := pool, journal := #[] } }
  let (result, patcher, directory) :=
    ready.runPrepared (saveTo path) workspace.directory lines mod { mod := path.name }
  set { workspace with directory := directory }
  Job.noteAll patcher.world.journal.toList
  return (result, patcher)

/-- Patches the mod of some files. -/
def patchMod (patcher : Patcher) (files : PatchFiles) : Job (RunResult × Patcher) := do
  let patcher := { patcher.reset with phase := .loading }
  Job.note .info .patching ("Patching " ++ files.mod.name)
  match ← Job.attempt (prepareRun files) with
  | .ok (file, lines) => runScript patcher files.mod file lines
  | .error fault =>
    if fault.isReported then
      let fresh := { patcher with world := { patcher.world with journal := #[] } }
      let (result, patcher) := fresh.failRun { mod := files.mod.name } fault.message
      Job.noteAll patcher.world.journal.toList
      return (result, patcher)
    else throw fault

/-- Patches the mod at a path, and logs the run if it should be. -/
def runPatch (patcher : Patcher) (logged : Bool) (path : Path) :
    Job (RunResult × Patcher) := do
  let files ← patchFiles path
  if logged then withRunLog files.runLog (patchMod patcher files)
  else patchMod patcher files

/-! ## Settings -/

/-- Where settings are unless another path is given. -/
def defaultSettingsPath : Path :=
  .ofText "modpatcher.yaml"

/-- The settings of the file at a path, if there is one. -/
def readSettings (path : Path) : Job Settings := do
  let directory := (← get).directory
  if !directory.has path then return {}
  match (directory.content? path).bind Content.document? with
  | none =>
    Job.note .warning .settings ("Failed to load config from " ++ path.text)
    return {}
  | some document =>
    match if document.isFilled then document else .mapping [] with
    | .mapping entries => return .ofEntries path entries
    | _ =>
      Job.note .warning .settings
        ("Ignoring " ++ path.text ++ ": top level is not a mapping")
      return {}

/-- The settings: those of the given file, or those loaded before. -/
def settings (asked : Option Path) : Job Settings := do
  match asked, (← get).settings with
  | none, some settings => return settings
  | _, _ =>
    let loaded ← readSettings (asked.getD defaultSettingsPath)
    let settings := loaded.overridden (← get).overrides
    modify fun workspace => { workspace with settings := some settings }
    return settings

/-- Changes a setting. -/
def changeSetting (name : String) (value : Plain) : Job Unit :=
  modify fun workspace =>
    { workspace with settings := workspace.settings.map fun settings => settings.set name value }

/-- The mods of a load order that are there. -/
def listedMods (folder : Path) : List Plain → Job (List Path)
  | [] => return []
  | value :: rest => do
    let path := folder.join (← Job.shaped (Settings.pathOf value))
    if (← get).directory.has path then return path :: (← listedMods folder rest)
    else
      Job.note .warning .settings ("Mod in load order not found: " ++ path.text)
      listedMods folder rest

/-- The mod files in a folder: by suffix in the order of these, and by name. -/
def modsIn (directory : Directory) (folder : Path) (extensions : List String) : List Path :=
  match directory.place? folder with
  | none => []
  | some place =>
    let found := (Text.sorted (directory.namesIn place)).map fun name =>
      { folder with names := folder.names ++ [name] }
    (extensions.eraseDups).flatMap fun extension =>
      found.filter fun path => path.suffix == extension

/-- The mods the settings stand for, in load order. -/
def discover : Job (List Path) := do
  let settings ← settings none
  match ← Job.shaped settings.loadOrder with
  | [] =>
    let folder ← Job.shaped settings.modsFolder
    if !(← get).directory.hasFolder folder then return []
    return modsIn (← get).directory folder (← Job.shaped settings.extensions)
  | order => listedMods (← Job.shaped settings.modsFolder) order

/-- The seed the settings give. -/
def seed : Job (Option Int) := do
  let settings ← settings none
  let (seed, notices) ← Job.shaped settings.seed
  Job.noteAll notices
  return seed

end Patchwork
