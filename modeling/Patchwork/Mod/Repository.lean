import Patchwork.Mod
import Patchwork.Text.Blank

/-!
# The loaded mods

The mods in load order, each under its name.  Queries read from here; changes
go to the mod being patched, which is kept apart.
-/

namespace Patchwork

/-- The loaded mods by name, in load order. -/
structure Repository where
  mods : Entries String Mod := []

namespace Repository

/-- The repository with a mod at the end of the load order, or in the place of
the one with its name. -/
def add (repository : Repository) (mod : Mod) : Repository :=
  ⟨repository.mods.put mod.name mod⟩

/-- The mod with a name. -/
def get? (repository : Repository) (name : String) : Option Mod :=
  repository.mods.get? name

/-- The names of the loaded mods. -/
def names (repository : Repository) : List String :=
  repository.mods.map Prod.fst

/-- The mods with their names, in load order. -/
def list (repository : Repository) : List Mod :=
  repository.mods.map Prod.snd

/-- The names a selector lists, each once. -/
def selectedNames (selector : String) : List String :=
  distinct (((Text.pieces ',' selector.toList).map fun piece =>
    String.ofList (Text.trimChars piece)).filter (· != ""))

/-- The mods a selector stands for, in load order, and the names it lists that
are not loaded.  The selector `all` stands for every mod. -/
def select (repository : Repository) (selector : String) : List Mod × List String :=
  if Text.trim selector == "all" then (repository.list, [])
  else
    let wanted := selectedNames selector
    ((repository.mods.filter fun entry => wanted.contains entry.1).map Prod.snd,
      Text.sorted (wanted.filter fun name => !repository.names.contains name))

/-- The notice about names that are not loaded. -/
def missingNotice? (missing : List String) : Option Notice :=
  if missing.isEmpty then none
  else some ⟨.warning, .repository,
    "Selector names mods that are not loaded: " ++ Text.joined ", " missing⟩

/-- Every mod's version of the record with an identifier, in load order. -/
def versions (repository : Repository) (pool : Pool) (id : String) :
    List (String × RecordRef) :=
  repository.list.filterMap fun mod => (mod.find? pool id).map fun record => (mod.name, record)

/-- The records of a kind in the given mods, with the mod each is from. -/
def collect (pool : Pool) (kind : String) (mods : List Mod) : List Member :=
  mods.flatMap fun mod => (mod.ofKind pool kind).map fun record => ⟨mod.name, record⟩

end Repository

end Patchwork
