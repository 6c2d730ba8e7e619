import Patchwork.Mod
import Patchwork.Path
import Patchwork.Plain.Shape

/-!
# Mod files

A mod file is a document with the name of the mod, its header and its records.
`ModFile.ofDocument` reads one and `ModFile.document` writes one.  A document
may leave out almost everything: a mod without a name is called after its file,
and a record needs an identifier and a type only.
-/

namespace Patchwork

/-- Why a file is no mod file. -/
inductive ModFileFault
  /-- There is no such file. -/
  | missing
  /-- The file holds no document. -/
  | garbled
  | notMapping
  | entryNotMapping (kind : String)
  | entryLacks (key : String)
  deriving DecidableEq, Repr

/-- Why something cannot be done with files. -/
inductive FileFault
  /-- There is no file where a path leads, which is named as it was asked for. -/
  | missing (asked : String)
  /-- The text of a path has a null character. -/
  | nullCharacter
  /-- The path has no name that could be given a suffix. -/
  | nameless (path : Path)
  | modFile (path : Path) (fault : ModFileFault)
  | shape (fault : ShapeFault)
  | scan (fault : ScanFault)
  deriving DecidableEq

/-- The error for a path without a file. -/
def missingText (asked : String) : String :=
  "[Errno 2] No such file or directory: " ++ Text.quoted asked

/-- The text of the error about the file at a path. -/
def ModFileFault.message (path : Path) : ModFileFault → String
  | missing => "Cannot read mod file: " ++ missingText path.text
  | garbled => "Invalid YAML"
  | notMapping => "Mod file must contain a mapping"
  | entryNotMapping kind => "Record entry must be a mapping, got " ++ kind
  | entryLacks key => "Record entry is missing " ++ Text.quoted key

/-- The text of the error. -/
def FileFault.message : FileFault → String
  | missing asked => missingText asked
  | nullCharacter => "embedded null byte"
  | nameless path => "PosixPath(" ++ Text.quoted path.text ++ ") has an empty name"
  | modFile path fault => path.text ++ ": " ++ fault.message path
  | shape fault => fault.message
  | scan fault => fault.message

/-- A mod as its file states it. -/
structure ModFile where
  name : Plain
  dependencies : List Plain := []
  references : List Plain := []
  records : List Record := []

namespace ModFile

/-! ## Reading -/

/-- A step of reading a file. -/
abbrev Reading := Except FileFault

/-- What a value should be, or a fault. -/
def shaped {Result : Type} (outcome : Except ShapeFault Result) : Reading Result :=
  outcome.mapError .shape

/-- The value of a key of a mapping; nothing if it is not there. -/
def valueOf (entries : Entries Plain Plain) (key : String) : Plain :=
  (Plain.get? entries key).getD .null

/-- The links of one category: the payload of every target. -/
def readTargets : List (Plain × Plain) → Reading (List (String × List Int))
  | [] => return []
  | (target, payload) :: rest => do
    let numbers ← shaped (payload.listing >>= fun elements => elements.mapM Plain.integer)
    return (target.text, numbers) :: (← readTargets rest)

/-- The links of every category. -/
def readCategories : List (Plain × Plain) → Reading (List (String × Entries String (List Int)))
  | [] => return []
  | (category, targets) :: rest => do
    let links ← readTargets (← shaped targets.entries)
    return (category.text, Entries.ofPairs links) :: (← readCategories rest)

/-- The text of a key that an entry has to have. -/
def requiredText (path : Path) (entries : Entries Plain Plain) (key : String) :
    Reading String :=
  match Plain.get? entries key with
  | some value => .ok value.text
  | none => .error (.modFile path (.entryLacks key))

/-- The record an entry describes. -/
def readRecord (path : Path) : Plain → Reading Record
  | .mapping entries => do
    let id ← requiredText path entries "string_id"
    let kind ← requiredText path entries "type"
    let links ← readCategories (← shaped (valueOf entries "extra_data").entries)
    let fields ← shaped (valueOf entries "fields").entriesOrPairs
    let name := valueOf entries "name"
    return {
      id := id
      kind := kind
      name := if name.isFilled then name.text else ""
      isNew := (valueOf entries "new").isFilled
      fields := fields
      links := Entries.ofPairs links }
  | other => .error (.modFile path (.entryNotMapping other.kindName))

/-- The name of a mod: the one it is asked for by, the one it states or that of
its file. -/
def nameOf (path : Path) (asked : Option String) (stated : Plain) : Plain :=
  match asked.filter (· != "") with
  | some name => .str name
  | none => if stated.isFilled then stated else .str path.name

/-- A header without the mod itself and with every entry once. -/
def header (name : Plain) (entries : List Plain) : List Plain :=
  entries.foldl (Mod.addHeaderEntry name) []

/-- The mod that the document of the file at a path states, under the name it is
asked for by. -/
def ofDocument (path : Path) (asked : Option String) (document : Plain) :
    Reading ModFile :=
  match if document.isFilled then document else .mapping [] with
  | .mapping entries => do
    let name := nameOf path asked (valueOf entries "mod")
    let listed ← shaped (valueOf entries "records").listing
    let records ← listed.mapM (readRecord path)
    let dependencies ← shaped (valueOf entries "dependencies").listing
    let references ← shaped (valueOf entries "references").listing
    return ⟨name, header name dependencies, header name references, records⟩
  | _ => .error (.modFile path .notMapping)

/-! ## Writing -/

/-- The links of a record as a document. -/
def linksDocument (links : Links) : Plain :=
  .mapping (links.map fun (category, targets) =>
    (.str category, .mapping (targets.map fun (target, payload) =>
      (.str target, .list (payload.map .int)))))

/-- A record as an entry of a document; links are mentioned only if there are
any. -/
def entry (record : Record) : Plain :=
  .mapping ([
    (.str "string_id", .str record.id),
    (.str "type", .str record.kind),
    (.str "name", .str record.name),
    (.str "new", .bool record.isNew),
    (.str "fields", .mapping record.fields)] ++
    if record.links.isEmpty then []
    else [(.str "extra_data", linksDocument record.links)])

/-- The document that states a mod. -/
def document (file : ModFile) : Plain :=
  .mapping [
    (.str "mod", file.name),
    (.str "dependencies", .list file.dependencies),
    (.str "references", .list file.references),
    (.str "records", .list (file.records.map entry))]

/-! ## Mods and their files -/

/-- What the file of a mod has to state. -/
def ofMod (pool : Pool) (mod : Mod) : ModFile :=
  { name := .str mod.name
    dependencies := mod.dependencies
    references := mod.references
    records := mod.records.map pool.get }

/-- The mod that a file states, with its records added to the pool. -/
def toMod (file : ModFile) (pool : Pool) : Pool × Mod :=
  Mod.create pool file.name.text file.records file.dependencies file.references

end ModFile

end Patchwork
