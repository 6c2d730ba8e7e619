import Patchwork.Command.Request
import Patchwork.Token.Scan
import Patchwork.Workspace

/-!
# Commands

Carrying out what the command line asks for.  A command leaves a changed
workspace and an answer: an exit code, the lines it prints and the lines of its
error output, to which the notices belong.
-/

namespace Patchwork

/-- The answer of a command. -/
structure Answer where
  code : Nat := 0
  /-- Whether the arguments alone settled the answer. -/
  early : Bool := false
  /-- The texts that are printed, each on lines of its own. -/
  output : List String := []
  /-- The texts of the error output, each on lines of its own. -/
  complaints : List String := []

namespace Command

/-- A notice on the error output. -/
def labelled (notice : Notice) : String :=
  notice.level.name ++ " " ++ notice.source.name ++ ": " ++ notice.text

/-- Loads the settings for a command. -/
def configure (options : Options) : Job Unit := do
  let asked := (options.settings.filter (· != "")).map Path.ofText
  let _ ← settings asked
  if let some folder := options.modsFolder.filter (· != "") then
    changeSetting "mods_dir" (.str folder)

/-- Does a job under the settings for a command.  Notices that come before the
settings are in force are shown bare, and only if they warn. -/
def configured (options : Options) (job : Settings → Job Answer) : Job Answer := do
  let before ← get
  configure options
  let settings ← settings none
  let ready ← modifyGet fun workspace => (workspace.journal.size,
    { workspace with rank := if options.verbose then Level.debug.rank else settings.rank })
  let answer ← job settings
  let after ← get
  let early := Journal.atLeast (max Level.warning.rank before.rank)
    (after.journal.extract before.journal.size ready)
  let shown := Journal.atLeast after.rank (after.journal.extract ready after.journal.size)
  return { answer with
    complaints := early.map Notice.text ++ shown.map labelled ++ answer.complaints }

/-- The names in a header as one text. -/
def namesText (entries : List Plain) : Except ShapeFault String := do
  let names ← entries.mapM fun entry =>
    match entry with
    | .str name => .ok name
    | other => .error (.notText other.kindName)
  return Text.joined ", " names

/-- The line about part of a header, if there is anything in it. -/
def headerLines (title : String) (entries : List Plain) : Job (List String) := do
  if entries.isEmpty then return []
  return ["  " ++ title ++ ": " ++ (← Job.shaped (namesText entries))]

/-- The answer about a run. -/
def runAnswer (result : RunResult) : Job Answer := do
  let dependencies ← headerLines "dependencies" result.dependencies
  let references ← headerLines "references" result.references
  return {
    code := if result.succeeded then 0 else 1
    output := (result.mod ++ ": " ++ Text.lowerCase result.phase.name ++ " (" ++
      integerText result.linesExecuted ++ " statements)") :: dependencies ++ references
    complaints := (result.error.filter (· != "")).toList.map ("  error: " ++ ·) }

/-- Where the mod to patch is: at the path itself or in the folder of the mods. -/
def findMod (settings : Settings) (asked : Path) : Job Path := do
  if asked.isRooted || (← get).directory.has asked then return asked
  return (← Job.shaped settings.modsFolder).join asked

/-- Patches a mod. -/
def run (mod : String) (settings : Settings) : Job Answer := do
  let path ← findMod settings (.ofText mod)
  if !(← get).directory.has path then
    return { code := 1, complaints := ["Mod not found: " ++ path.text] }
  match ← Job.attempt (do loadRepository (← discover)) with
  | .error fault =>
    if fault.isReported then
      return { code := 1, complaints := ["Could not load mods: " ++ fault.message] }
    else throw fault
  | .ok (repository, pool) =>
    let patcher := Patcher.create repository pool (← seed)
    let (result, _) ← runPatch patcher settings.logsRuns path
    runAnswer result

/-- The line about one mod in a list of mods. -/
def statusLine (width : Nat) (path : Path) : Job String := do
  let files ← patchFiles path
  let status := files.status (← get).directory
  return Text.padRight width path.name ++ "  " ++ status.label

/-- Lists the mods and how far their patching has got. -/
def status (settings : Settings) : Job Answer := do
  match ← discover with
  | [] =>
    let folder ← Job.shaped settings.modsFolder
    return { output := ["No mods found in " ++ folder.text] }
  | mods =>
    let width := (mods.map fun path => path.name.length).foldl max 0
    return { output := ← mods.mapM (statusLine width) }

/-- The answer with one line of a script, which has a number, scanned. -/
def scanLine (answer : Answer) (number : Nat) (line : String) : Job Answer := do
  let scan := Scan.ofText line
  let label := Text.padLeft 4 (integerText number) ++ ": "
  match scan.fault? with
  | none =>
    return { answer with output := answer.output ++
      [label ++ Text.joined " " (scan.tokens.dropLast.map Token.summary)] }
  | some fault =>
    if fault.column?.isSome then
      return { answer with
        code := 1
        complaints := answer.complaints ++ [label ++ fault.message] }
    else throw (.scan fault)

/-- The answer with the lines of a script from a number on scanned. -/
def scanLines (answer : Answer) (number : Nat) : List String → Job Answer
  | [] => return answer
  | raw :: rest => do
    let line := stripComment raw
    let answer ← if line == "" then pure answer else scanLine answer number line
    scanLines answer (number + 1) rest

/-- Shows the tokens of a script. -/
def tokens (script : String) : Job Answer := do
  match ← Job.attempt (Job.readScript script) with
  | .ok lines => scanLines {} 1 lines
  | .error fault =>
    if fault.isReported then
      return { code := 1, complaints := ["Error: " ++ fault.message] }
    else throw fault

/-- Shows every mod's version of a record. -/
def evolution (id : String) : Job Answer := do
  let (repository, pool) ← loadRepository (← discover)
  match repository.versions pool id with
  | [] => return { code := 1, output := ["No loaded mod contains " ++ id] }
  | versions =>
    return { output := versions.flatMap fun (mod, record) =>
      ["--- " ++ mod ++ " ---", (pool.get record).describe] }

/-- A summary of the commands. -/
def summary : List String := [
  "usage: modpatcher [--version] [-h] command",
  "",
  "  run MOD             Patch a mod from its .patch script",
  "  status              Show patch status of every mod",
  "  tokens SCRIPT       Show the tokens of each script line",
  "  evolution RECORD    Show every mod's version of a record",
  "",
  "  --mods-dir DIR      Folder holding the mod files",
  "  --config FILE       Configuration file",
  "  -v, --verbose       Debug logging"]

/-- Carries out what is asked for. -/
def perform : Request → Job Answer
  | .run mod options => configured options (run mod)
  | .status options => configured options status
  | .tokens script => tokens script
  | .evolution id options => configured options fun _ => evolution id
  | .version => return { early := true, output := ["modpatcher 0.1.0"] }
  | .help asked => return { early := asked, output := summary }
  | .refused => return { code := 2, early := true, complaints := summary }

end Command

end Patchwork
