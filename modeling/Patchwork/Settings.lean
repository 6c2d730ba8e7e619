import Patchwork.Journal
import Patchwork.Path
import Patchwork.Plain.Shape

/-!
# Settings

Where the mods are, in what order they are loaded and what is logged.  Settings
come from a document, whose values may be anything; each one is made sense of
when it is asked for.  Variables of the environment override the document.
-/

namespace Patchwork

/-- Named values, and the path of the document they were read from. -/
structure Settings where
  entries : Entries Plain Plain := [
    (.str "mods_dir", .str "."),
    (.str "load_order", .list []),
    (.str "mod_extensions", .list [.str ".base", .str ".mod"]),
    (.str "log_level", .str "INFO"),
    (.str "write_run_log", .bool true),
    (.str "random_seed", .null)]
  path : Option Path := none

namespace Settings

/-- The variables that override settings, with the names of these. -/
def overrideNames : List (String × String) :=
  [("MODPATCHER_MODS_DIR", "mods_dir"), ("MODPATCHER_LOG_LEVEL", "log_level"),
    ("MODPATCHER_RANDOM_SEED", "random_seed")]

/-- The value of a setting. -/
def valueOf (settings : Settings) (name : String) : Plain :=
  (Plain.get? settings.entries name).getD .null

/-- The settings with one of them changed. -/
def set (settings : Settings) (name : String) (value : Plain) : Settings :=
  { settings with entries := settings.entries.put (.str name) value }

/-- The settings with the values of variables over them. -/
def overridden (settings : Settings) (overrides : Entries String String) : Settings :=
  overrideNames.foldl (fun settings (given, name) =>
    match overrides.get? given with
    | some value => settings.set name (.str value)
    | none => settings) settings

/-- The settings of a document at a path. -/
def ofEntries (path : Path) (entries : Entries Plain Plain) : Settings :=
  { entries := ({} : Settings).entries.putAll entries, path := some path }

/-- The path a value stands for. -/
def pathOf : Plain → Except ShapeFault Path
  | .str text => .ok (.ofText text)
  | other => .error (.notText other.kindName)

/-- The suffix a value stands for; a point in front may be left out. -/
def suffixOf : Plain → Except ShapeFault String
  | .str text => .ok (if text.toList.head? == some '.' then text else "." ++ text)
  | other => .error (.notSuffix other.kindName)

/-- The folder of the mods. -/
def modsFolder (settings : Settings) : Except ShapeFault Path :=
  pathOf (settings.valueOf "mods_dir")

/-- The mods to load, in order; none means all in the folder. -/
def loadOrder (settings : Settings) : Except ShapeFault (List Plain) :=
  (settings.valueOf "load_order").listing

/-- The suffixes of mod files, in load order. -/
def extensions (settings : Settings) : Except ShapeFault (List String) :=
  (settings.valueOf "mod_extensions").listing >>= fun values => values.mapM suffixOf

/-- The rank from which on notices are shown. -/
def rank (settings : Settings) : Nat :=
  (Level.rankOfName? (Text.upperCase (settings.valueOf "log_level").text)).getD 20

/-- Whether runs are logged. -/
def logsRuns (settings : Settings) : Bool :=
  (settings.valueOf "write_run_log").isFilled

/-- The notice about a seed that is no integer. -/
def seedNotice (value : Plain) : Notice :=
  ⟨.warning, .settings, "Ignoring non-integer random_seed " ++ value.innerText⟩

/-- The seed of random draws, and a notice if the setting is no integer.  An
infinite seed is a fault. -/
def seed (settings : Settings) : Except ShapeFault (Option Int × List Notice) :=
  match settings.valueOf "random_seed" with
  | .null => .ok (none, [])
  | .str "" => .ok (none, [])
  | value =>
    match value.integer with
    | .ok number => .ok (some number, [])
    | .error (.number .infinityToInteger) => .error (.number .infinityToInteger)
    | .error _ => .ok (none, [seedNotice value])

/-- The settings made sense of. -/
structure Overview where
  modsFolder : Path
  loadOrder : List Plain
  extensions : List String
  rank : Nat
  logsRuns : Bool
  seed : Option Int
  path : Option Path

/-- All settings made sense of, and the notices about them. -/
def overview (settings : Settings) : Except ShapeFault (Overview × List Notice) := do
  let modsFolder ← settings.modsFolder
  let loadOrder ← settings.loadOrder
  let extensions ← settings.extensions
  let (seed, notices) ← settings.seed
  return (⟨modsFolder, loadOrder, extensions, settings.rank, settings.logsRuns, seed,
    settings.path⟩, notices)

end Settings

end Patchwork
