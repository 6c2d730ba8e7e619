import Patchwork.Journal
import Patchwork.Record.Group
import Patchwork.Text.Digit

/-!
# Mods

A mod is a list of records in file order with a header.  The header names the
mods whose records it changes (dependencies) and the mods whose records it
links to (references); a header read from a file may hold any plain values, and
a run only ever adds names of mods.
-/

namespace Patchwork

/-- One mod's records and header, with the identifiers of the records that were
deleted from it. -/
structure Mod where
  name : String
  records : List RecordRef := []
  dependencies : List Plain := []
  references : List Plain := []
  deleted : List String := []

namespace Mod

/-- A header with one entry more, unless it is the name of the mod itself or
there already. -/
def addHeaderEntry (name : Plain) (header : List Plain) (entry : Plain) : List Plain :=
  if name.equals entry || header.contains entry then header else header ++ [entry]

/-- The mod with more dependencies. -/
def addDependencies (mod : Mod) (entries : List Plain) : Mod :=
  { mod with dependencies := entries.foldl (addHeaderEntry (.str mod.name)) mod.dependencies }

/-- The mod with more references. -/
def addReferences (mod : Mod) (entries : List Plain) : Mod :=
  { mod with references := entries.foldl (addHeaderEntry (.str mod.name)) mod.references }

/-- The mod with one more record, which has to be in the pool. -/
def addRecord (mod : Mod) (record : RecordRef) : Mod :=
  { mod with records := mod.records ++ [record] }

/-- A mod with the given records and header; its name is put on the records. -/
def create (pool : Pool) (name : String) (records : List Record)
    (dependencies references : List Plain) : Pool × Mod :=
  let (filled, refs) := pool.addAll (records.map fun record => { record with mod := name })
  let mod : Mod := { name := name, records := refs }
  (filled, (mod.addDependencies dependencies).addReferences references)

/-- The first record with an identifier. -/
def find? (mod : Mod) (pool : Pool) (id : String) : Option RecordRef :=
  mod.records.find? fun record => (pool.get record).id == id

/-- The records of a kind. -/
def ofKind (mod : Mod) (pool : Pool) (kind : String) : List RecordRef :=
  mod.records.filter fun record => (pool.get record).kind == kind

/-- The identifiers of the records the mod introduces. -/
def introduced (mod : Mod) (pool : Pool) : List String :=
  (mod.records.filter fun record => (pool.get record).isNew).map fun record =>
    (pool.get record).id

/-- The number in front of an identifier: decimal digits up to a hyphen. -/
def idNumber? (id : String) : Option Nat :=
  let digits := id.toList.takeWhile Text.isDecimal
  match digits, id.toList.dropWhile Text.isDecimal with
  | _ :: _, '-' :: _ =>
    some (Nat.ofDigitChars 10 (digits.map fun digit =>
      Text.digitChar ((Text.decimalValue? digit).getD 0)) 0)
  | _, _ => none

/-- A number greater than that of every identifier the mod has or had. -/
def nextIdNumber (mod : Mod) (pool : Pool) : Nat :=
  let ids := mod.records.map (fun record => (pool.get record).id) ++ mod.deleted
  ids.foldl (fun highest id => max highest ((idNumber? id).getD 0)) 0 + 1

/-- One line with the name and the number of records. -/
def summary (mod : Mod) : String :=
  "ModRecordStore(" ++ Text.quoted mod.name ++ ", " ++ integerText mod.records.length ++
    " records)"

@[simp]
theorem name_addDependencies (mod : Mod) (entries : List Plain) :
    (mod.addDependencies entries).name = mod.name := rfl

@[simp]
theorem records_addDependencies (mod : Mod) (entries : List Plain) :
    (mod.addDependencies entries).records = mod.records := rfl

@[simp]
theorem name_addReferences (mod : Mod) (entries : List Plain) :
    (mod.addReferences entries).name = mod.name := rfl

@[simp]
theorem records_addReferences (mod : Mod) (entries : List Plain) :
    (mod.addReferences entries).records = mod.records := rfl

end Mod

end Patchwork
