import Patchwork.Draws
import Patchwork.Environment
import Patchwork.Merge
import Patchwork.Mod.Workbench

/-!
# The world of a run

What evaluation may change: the records, the mod being patched, the random
generator, the stop flag and the notices.  Definitions, tables and the loaded
mods are only read.  An evaluation that fails keeps the changes it made before.
-/

namespace Patchwork

/-- Everything evaluation may change. -/
structure World where
  pool : Pool := {}
  /-- The mod being patched. -/
  active : Option Mod := none
  draws : Draws := .seeded none
  stopping : Bool := false
  journal : Journal := #[]
  /-- The last mark that has been given. -/
  marks : Nat := Binary64.documentMark

/-- Everything evaluation reads and never changes. -/
structure Setting where
  environment : Environment := {}
  repository : Repository := {}

/-- An evaluation: a fault or a result, and the world after it. -/
abbrev Eval := ExceptT Fault (StateM World)

/-- An argument that has not been evaluated yet. -/
abbrev Argument := Option RecordRef → Eval Value

/-- A closure outside of a value. -/
structure Closure where
  identity : Nat
  parameter : String
  body : Node
  record : Option RecordRef

/-- The closure of a closure value. -/
def Value.expectClosure (labels : Labels) (purpose : String) : Value → Except Fault Closure
  | .closure identity parameter body record => .ok ⟨identity, parameter, body, record⟩
  | value => .error (value.unexpected labels .lambda purpose)

namespace Eval

/-- Fails. -/
def fail {Result : Type} (fault : EvaluationFault) : Eval Result :=
  throw (.evaluation fault)

/-- A computation without effects: its result or its fault. -/
def settle {Result : Type} (outcome : Except Fault Result) : Eval Result :=
  match outcome with
  | .ok result => return result
  | .error fault => throw fault

/-- How records are called at present. -/
def labels : Eval Labels :=
  return (← get).pool.label

/-- A computation without effects that depends on how records are called. -/
def labelled {Result : Type} (compute : Labels → Except Fault Result) : Eval Result := do
  settle (compute (← labels))

/-- The record at a place. -/
def record (ref : RecordRef) : Eval Record :=
  return (← get).pool.get ref

/-- Adds a notice. -/
def note (level : Level) (source : Source) (text : String) : Eval Unit :=
  modify fun world => { world with journal := world.journal.push ⟨level, source, text⟩ }

/-- A mark that has not been given before. -/
def nextMark : Eval Nat := do
  let world ← get
  set { world with marks := world.marks + 1 }
  return world.marks + 1

/-- Marks a value that is not a number, so that it is told apart from every
other one. -/
def mark : Value → Eval Value
  | .float (.nan 0) => return .float (.nan (← nextMark))
  | value => return value

/-- The mod being patched. -/
def requireActive : Eval Mod := do
  match (← get).active with
  | some mod => return mod
  | none => fail .noActiveMod

/-- Does an operation on the mod being patched; one that fails changes
nothing. -/
def onActive {Result : Type} (work : Work Result) : Eval Result := do
  let mod ← requireActive
  let world ← get
  match work.run ⟨world.pool, mod, world.journal, world.marks⟩ with
  | (.error fault, _) => throw fault
  | (.ok result, bench) =>
    set { world with
      pool := bench.pool
      active := some bench.mod
      journal := bench.journal
      marks := bench.marks }
    return result

/-- The value of an argument. -/
def argument (name : String) (arguments : List Argument) (position : Nat) : Argument :=
  fun record =>
    match arguments[position]? with
    | some argument => argument record
    | none => fail (.missingArgument name)

/-- Puts merged records into the pool. -/
def place (outcome : Merge.Outcome) : Eval Group := do
  let world ← get
  let (pool, group) := outcome.place world.pool
  set { world with pool := pool, journal := world.journal ++ outcome.notices.toArray }
  return group

end Eval

end Patchwork
