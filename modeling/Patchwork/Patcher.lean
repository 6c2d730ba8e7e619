import Patchwork.Evaluation
import Patchwork.Statement

/-!
# Patching

A patcher runs scripts line by line.  Each line is read against what the lines
before it have defined and is carried out before the next line is read.  The
first line that fails ends the run, and nothing is saved; a line may also ask
for the run to stop.
-/

namespace Patchwork

/-- Where a run is, or how it ended. -/
inductive Phase
  | idle | loading | executing | saved | stopped | failed
  deriving DecidableEq, Repr

/-- The name of a phase. -/
def Phase.name : Phase → String
  | .idle => "IDLE"
  | .loading => "LOADING"
  | .executing => "EXECUTING"
  | .saved => "SAVED"
  | .stopped => "STOPPED"
  | .failed => "FAILED"

/-- The loaded mods and the state of the present run. -/
structure Patcher where
  repository : Repository := {}
  seed : Option Int := none
  environment : Environment := {}
  world : World := {}
  phase : Phase := .idle
  /-- Whether the definitions have been listed in this run. -/
  listed : Bool := false

/-- A step of a run: a fault or a result, and the patcher after it. -/
abbrev Run := ExceptT Fault (StateM Patcher)

namespace Patcher

/-- A patcher for the loaded mods. -/
def create (repository : Repository) (pool : Pool) (seed : Option Int) : Patcher :=
  { repository := repository, seed := seed
    world := { pool := pool, draws := .seeded seed } }

/-- The patcher with everything from earlier runs forgotten. -/
def reset (patcher : Patcher) : Patcher :=
  { patcher with
    environment := {}
    world := { patcher.world with
      active := none
      draws := .seeded patcher.seed
      stopping := false }
    phase := .idle
    listed := false }

/-- What evaluation reads. -/
def setting (patcher : Patcher) : Setting :=
  ⟨patcher.environment, patcher.repository⟩

/-- What names mean at present. -/
def names (patcher : Patcher) : Names :=
  ⟨patcher.environment, patcher.world.pool.label, []⟩

/-- The patcher with a notice added. -/
def note (patcher : Patcher) (level : Level) (source : Source) (text : String) : Patcher :=
  { patcher with
    world := { patcher.world with
      journal := patcher.world.journal.push ⟨level, source, text⟩ } }

@[simp]
theorem environment_reset (patcher : Patcher) : patcher.reset.environment = {} := rfl

@[simp]
theorem repository_reset (patcher : Patcher) :
    patcher.reset.repository = patcher.repository := rfl

@[simp]
theorem reset_reset (patcher : Patcher) : patcher.reset.reset = patcher.reset := rfl

end Patcher

namespace Run

/-- Evaluates something in the world of the run. -/
def evaluate {Result : Type} (evaluation : Setting → Eval Result) : Run Result := do
  let patcher ← get
  let (outcome, world) := (evaluation patcher.setting).run patcher.world
  set { patcher with world := world }
  match outcome with
  | .ok result => return result
  | .error fault => throw fault

/-- Changes what the run has defined. -/
def redefine (change : Environment → Environment) : Run Unit :=
  modify fun patcher => { patcher with environment := change patcher.environment }

/-- Adds a notice. -/
def note (level : Level) (source : Source) (text : String) : Run Unit :=
  modify fun patcher => patcher.note level source text

end Run

/-! ## Group queries and extractions -/

/-- The members a condition accepts, or the first of them. -/
def keepMatches (mode : SelectionMode) (condition : RecordRef → Eval Bool) :
    List Member → Eval (List Member)
  | [] => return []
  | member :: rest => do
    if ← condition member.record then
      match mode with
      | .firstMatch => return [member]
      | .allMatches => return member :: (← keepMatches mode condition rest)
    else keepMatches mode condition rest

/-- The merged records of a kind from the selected mods. -/
def mergedRecords (repository : Repository) (selector kind : String) :
    Eval (Group × List String) := do
  let (mods, missing) := repository.select selector
  if let some notice := Repository.missingNotice? missing then
    modify fun world => { world with journal := world.journal.push notice }
  let pool := (← get).pool
  let outcome := Merge.mergeAll pool (Repository.collect pool kind mods)
  return (← Eval.place outcome, outcome.orphans)

/-- The notice about the outcome of a query. -/
def queryNotice (selector kind : String) (merged kept orphans : Nat) : String :=
  "(" ++ selector ++ ") " ++ kind ++ ": " ++ integerText merged ++ " merged, " ++
    integerText kept ++ " kept" ++
    (if orphans = 0 then "" else ", " ++ integerText orphans ++ " without creator")

/-- The merged records of a kind from the selected mods that a condition
accepts, or the first of them. -/
def resolveGroup (repository : Repository) (selector kind : String)
    (condition : RecordRef → Eval Bool) (mode : SelectionMode) : Eval Group := do
  let (merged, orphans) ← mergedRecords repository selector kind
  let kept ← keepMatches mode condition merged.members
  Eval.note .debug .merging (queryNotice selector kind merged.size kept.length orphans.length)
  return ⟨kept⟩

/-- The members a condition rejects and those it accepts. -/
def splitMembers (condition : RecordRef → Eval Bool) :
    List Member → Eval (List Member × List Member)
  | [] => return ([], [])
  | member :: rest => do
    let accepted ← condition member.record
    let (kept, taken) ← splitMembers condition rest
    return if accepted then (kept, member :: taken) else (member :: kept, taken)

/-- Takes the records a condition accepts out of a defined group; those that
stay remain defined under its name.  Gives those that stay and those taken. -/
def partition (name : String) (condition : Setting → RecordRef → Eval Bool) :
    Run (Group × Group) := do
  let (source, kept, taken) ← Run.evaluate fun setting => do
    let source ← Eval.settle (setting.environment.group name)
    let (kept, taken) ← splitMembers (condition setting) source.members
    return (source, kept, taken)
  Run.redefine fun environment => environment.define name (.group ⟨kept⟩)
  Run.note .debug .extraction ("Extracted " ++ integerText taken.length ++ " of " ++
    integerText source.size ++ " records from " ++ name)
  return (⟨kept⟩, ⟨taken⟩)

/-! ## Statements -/

/-- The notices that list everything defined. -/
def definitionTexts (environment : Environment) (labels : Labels) : List String :=
  (environment.definitions.map fun (name, value) =>
    match value with
    | .group group => name ++ ": " ++ integerText group.size ++ " records"
    | other => name ++ " = " ++ other.display labels) ++
  (environment.tables.map fun (name, entries) =>
    name ++ "[]: " ++ integerText entries.length ++ " keys")

/-- Lists everything defined, once in a run. -/
def listDefinitions : Run Unit := do
  let patcher ← get
  if !patcher.listed then
    set { patcher with listed := true }
    (definitionTexts patcher.environment patcher.world.pool.label).forM fun text =>
      Run.note .debug .context text

/-- Gives a target an expression: a name gets its value, a table entry the
expression itself. -/
def assign (target : Target) (node : Node) : Run Unit := do
  match target.key with
  | some key => Run.redefine fun environment => environment.setTableEntry target.name key node
  | none =>
    let value ← Run.evaluate fun setting => node.evaluate setting none
    Run.redefine fun environment => environment.define target.name value

/-- Carries out a statement. -/
def Statement.execute : Statement → Run Unit
  | .define target expression => assign target expression
  | .query target found => do
    let group ← Run.evaluate fun setting =>
      resolveGroup setting.repository found.selector found.definition.kind
        (found.condition.holds setting "group condition") found.definition.mode
    assign target (.group group)
  | .extract target source condition => do
    let (_, taken) ← partition source fun setting =>
      condition.holds setting "extraction condition"
    assign target (.group taken)
  | .invoke expression => do
    match expression with
    | .pipe .. => listDefinitions
    | _ => pure ()
    let _ ← Run.evaluate fun setting => expression.evaluate setting none

/-- Reads a stripped line and carries it out. -/
def executeLine (line : String) : Run Unit := do
  let patcher ← get
  match Statement.ofLine patcher.names line with
  | .error fault => throw fault
  | .ok statement => statement.execute

/-! ## Scripts -/

/-- Why and where a script failed. -/
structure LineFault where
  number : Nat
  line : String
  fault : Fault

/-- The text of the error. -/
def LineFault.message (failure : LineFault) : String :=
  "Line " ++ integerText failure.number ++ ": " ++ failure.fault.message ++ "\n    " ++
    failure.line

/-- Carries out lines, numbered from `number` on, until one fails or asks to
stop.  Gives the number of statements carried out, which is `executed` at the
start. -/
def executeLines : (number executed : Nat) → List String → Patcher →
    (Nat × Option LineFault) × Patcher
  | _, executed, [], patcher => ((executed, none), patcher)
  | number, executed, raw :: rest, patcher =>
    if patcher.world.stopping then ((executed, none), patcher)
    else
      let line := stripComment raw
      if line == "" then executeLines (number + 1) executed rest patcher
      else
        match (executeLine line).run patcher with
        | (.error fault, after) => ((executed, some ⟨number, line, fault⟩), after)
        | (.ok (), after) => executeLines (number + 1) (executed + 1) rest after

/-- The outcome of a run. -/
structure RunResult where
  mod : String
  phase : Phase := .idle
  linesExecuted : Nat := 0
  error : Option String := none
  failedLine : Option Nat := none
  dependencies : List Plain := []
  references : List Plain := []

/-- Whether a run ended without a fault. -/
def RunResult.succeeded (result : RunResult) : Bool :=
  result.phase == .saved || result.phase == .stopped

/-- Saves the mod that was patched somewhere: gives the notices about it, or
the text of an error, and the place after it. -/
abbrev Save (Place : Type) := Pool → Mod → Place → Except String (List Notice) × Place

namespace Patcher

/-- Ends a run. -/
def finish (patcher : Patcher) (result : RunResult) (phase : Phase) : RunResult × Patcher :=
  ({ result with phase := phase }, { patcher with phase := phase })

/-- Ends a run with an error. -/
def failRun (patcher : Patcher) (result : RunResult) (message : String) :
    RunResult × Patcher :=
  (patcher.note .error .patching (result.mod ++ ": patch failed: " ++ message)).finish
    { result with error := some message } .failed

/-- Starts a run on a mod. -/
def start (patcher : Patcher) (mod : Mod) : Patcher :=
  { patcher with world := { patcher.world with active := some mod }, phase := .executing }

/-- Saves the mod after a complete run, and ends the run. -/
def saveRun {Place : Type} (patcher : Patcher) (save : Save Place) (place : Place)
    (mod : Mod) (result : RunResult) : RunResult × Patcher × Place :=
  match save patcher.world.pool mod place with
  | (.error message, after) =>
    let (result, patcher) :=
      patcher.failRun result ("Could not save " ++ result.mod ++ ": " ++ message)
    (result, patcher, after)
  | (.ok notices, after) =>
    let patcher := notices.foldl
      (fun patcher notice => patcher.note notice.level notice.source notice.text) patcher
    let (result, patcher) :=
      (patcher.note .info .patching (result.mod ++ ": " ++ integerText result.linesExecuted ++
        " statement(s) applied")).finish result .saved
    (result, patcher, after)

/-- Runs the lines of a script on a mod, in a run that has been prepared. -/
def runPrepared {Place : Type} (patcher : Patcher) (save : Save Place) (place : Place)
    (lines : List String) (mod : Mod) (result : RunResult) : RunResult × Patcher × Place :=
  let ((executed, failure), patcher) := executeLines 1 0 lines (patcher.start mod)
  let result := { result with linesExecuted := executed }
  match failure with
  | some failure =>
    let (result, patcher) :=
      patcher.failRun { result with failedLine := some failure.number } failure.message
    (result, patcher, place)
  | none =>
    let patched := patcher.world.active.getD mod
    let result := { result with
      dependencies := patched.dependencies
      references := patched.references }
    if patcher.world.stopping then
      let (result, patcher) :=
        (patcher.note .info .patching (result.mod ++ ": stopped after " ++
          integerText executed ++ " statement(s), nothing saved")).finish result .stopped
      (result, patcher, place)
    else patcher.saveRun save place patched result

/-- Runs the lines of a script on a mod. -/
def runLines {Place : Type} (patcher : Patcher) (save : Save Place) (place : Place)
    (lines : List String) (mod : Mod) : RunResult × Patcher × Place :=
  patcher.reset.runPrepared save place lines mod { mod := mod.name }

end Patcher

end Patchwork
