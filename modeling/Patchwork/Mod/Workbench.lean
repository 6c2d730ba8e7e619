import Patchwork.Mod
import Patchwork.Mod.FieldValue

/-!
# Changing a mod

A change is asked for on a record of the merged view.  It is written into the
mod's own version of that record, which is made as an override if the mod has
none yet, and onto the record itself, so that later lines see it.  An operation
that fails keeps what it has done until then; everything that may fail comes
before the first change.
-/

namespace Patchwork

/-- The mod being changed, with the pool its records are in and the notices
about the changes. -/
structure Workbench where
  pool : Pool
  mod : Mod
  journal : Journal := #[]
  /-- The last mark that has been given. -/
  marks : Nat := Binary64.documentMark

/-- An operation on the workbench: a fault or a result, and the workbench after
it. -/
abbrev Work := ExceptT Fault (StateM Workbench)

namespace Work

/-- Adds a notice about the mod's records. -/
def note (text : String) : Work Unit :=
  modify fun bench =>
    { bench with journal := bench.journal.push ⟨.debug, .records, text⟩ }

/-- The record at a place. -/
def record (ref : RecordRef) : Work Record :=
  return (← get).pool.get ref

/-- Changes the record at a place. -/
def change (ref : RecordRef) (edit : Record → Record) : Work Unit :=
  modify fun bench => { bench with pool := bench.pool.modify ref edit }

/-- Marks a value that is not a number, so that it is told apart from every
other one. -/
def mark : Plain → Work Plain
  | .float (.nan 0) => do
    let bench ← get
    set { bench with marks := bench.marks + 1 }
    return .float (.nan (bench.marks + 1))
  | value => return value

/-- Puts a new record at the end of the mod. -/
def append (record : Record) : Work RecordRef := do
  let bench ← get
  let ref := bench.pool.nextRef
  set { bench with
    pool := bench.pool.add { record with mod := bench.mod.name }
    mod := bench.mod.addRecord ref }
  return ref

/-- The mod's own version of a record, made as an override if need be. -/
def ownVersion (ref : RecordRef) : Work RecordRef := do
  let bench ← get
  let record := bench.pool.get ref
  if bench.mod.deleted.contains record.id then
    throw (.store (.deletedRecord record.label bench.mod.name))
  match bench.mod.find? bench.pool record.id with
  | some own => return own
  | none =>
    let own ← append { id := record.id, kind := record.kind, name := record.name }
    note (bench.mod.name ++ ": created override for " ++ record.label)
    return own

/-- Writes a change into the mod's own version of a record and onto the record
itself. -/
def write (ref : RecordRef) (edit : Record → Record) : Work Unit := do
  let own ← ownVersion ref
  change own edit
  if own ≠ ref then change ref edit

/-! ## Fields -/

/-- Writes a text into a field the record has; it is converted to the type of
the value there. -/
def setField (ref : RecordRef) (name text : String) : Work Unit := do
  let record ← record ref
  match record.field? name with
  | none => throw (.store (.noField record.label name))
  | some current =>
    let value ← mark (← ((FieldType.of? current).getD .text).convert text)
    write ref fun target => target.setField name value

/-- Writes a text into a field, converted to a declared type. -/
def forceSetField (ref : RecordRef) (name text declared : String) : Work Unit := do
  match FieldType.declared? declared with
  | none => throw (.store (.unknownType declared))
  | some type =>
    let value ← mark (← type.convert text)
    write ref fun target => target.setField name value

/-! ## Links -/

/-- Links a record to a source record.  A link that is there already is kept
unless the operation is forced. -/
def addLink (ref source : RecordRef) (category : String) (payload : Option (List Int))
    (forced : Bool) : Work Unit := do
  let target ← record ref
  let linked ← record source
  if !forced && target.hasLink linked.id (some category) none then
    note (target.label ++ " already links " ++ linked.label ++ " in " ++ category ++
      ", skipped")
  else
    write ref fun target =>
      target.setLink ⟨category, linked.id, payload.getD Record.defaultPayload⟩

/-- Rewrites one link. -/
def relink (ref : RecordRef) (link : Link) : Work Unit :=
  write ref fun target => target.setLink link

/-! ## Records -/

/-- Drops a record the mod introduces, and marks any other one as deleted. -/
def deleteRecord (ref : RecordRef) : Work Unit := do
  let bench ← get
  let target := bench.pool.get ref
  let remove := fun record : Record => record.setField Record.removedField (.bool true)
  if bench.mod.deleted.contains target.id then return
  match bench.mod.find? bench.pool target.id with
  | some own =>
    if (bench.pool.get own).isNew then
      modify fun bench => { bench with
        mod := { bench.mod with
          records := bench.mod.records.erase own
          deleted := bench.mod.deleted ++ [target.id] } }
      change ref remove
      note (bench.mod.name ++ ": deleted own record " ++ target.label)
    else write ref remove
  | none => write ref remove

/-- The record a clone starts as. -/
def cloneOf (source : Record) (number : Nat) (mod : String) : Record :=
  { source with
    id := integerText number ++ "-" ++ mod
    isNew := true
    fields := source.fields.remove (.str Record.removedField) }

/-- Puts clones of a record at the end of the mod, numbered from `number`
on. -/
def appendClones (source : Record) (mod : String) : (count number : Nat) → Work (List RecordRef)
  | 0, _ => return []
  | count + 1, number => do
    let clone ← append (cloneOf source number mod)
    return clone :: (← appendClones source mod count (number + 1))

/-- Makes new records in the mod with the content of a record. -/
def cloneRecord (ref : RecordRef) (count : Int) : Work (List RecordRef) := do
  if count < 0 then throw (.store (.negativeCount count))
  let bench ← get
  let source := bench.pool.get ref
  let clones ← appendClones source bench.mod.name count.toNat
    (bench.mod.nextIdNumber bench.pool)
  note (bench.mod.name ++ ": cloned " ++ source.label ++ " " ++ integerText count ++ " time(s)")
  return clones

/-! ## Header -/

/-- Adds dependencies to the header. -/
def addDependencies (entries : List Plain) : Work Unit :=
  modify fun bench => { bench with mod := bench.mod.addDependencies entries }

/-- Adds references to the header. -/
def addReferences (entries : List Plain) : Work Unit :=
  modify fun bench => { bench with mod := bench.mod.addReferences entries }

end Work

end Patchwork
