import Patchwork.Mod.Repository

/-!
# Merging versions

Several mods may carry a version of one record.  The first version flagged new
is the creator; the merged record starts as the creator, and every other
version is applied to it in load order, so the last version that writes a
field, a link or a name wins.  Without a creator there is no merged record.
-/

namespace Patchwork

namespace Merge

/-- The members of a list under the identifiers of their records, in the order
in which each identifier came first. -/
def byId (pool : Pool) (members : List Member) : Entries String (List Member) :=
  members.foldl (fun grouped member =>
    let id := (pool.get member.record).id
    grouped.put id ((grouped.get? id).getD [] ++ [member])) []

/-- The first version flagged new. -/
def creator? (pool : Pool) (versions : List Member) : Option Member :=
  versions.find? fun version => (pool.get version.record).isNew

/-- The creator with every other version applied to it in order. -/
def mergeVersions (pool : Pool) (creator : Member) (versions : List Member) : Record :=
  (versions.filter fun version => version.record ≠ creator.record).foldl
    (fun merged version => merged.applyChanges (pool.get version.record))
    (pool.get creator.record)

/-- Merged records with the mods that created them, and the identifiers that no
version creates. -/
structure Outcome where
  merged : List (String × Record) := []
  orphans : List String := []
  notices : List Notice := []

/-- The notice about an identifier that no version creates. -/
def orphanNotice (id : String) (versions : List Member) : Notice :=
  ⟨.warning, .merging, "Record " ++ id ++ " has no creator among [" ++
    Text.joined ", " (versions.map Member.mod) ++ "]; skipped"⟩

/-- The outcome with the versions of one more identifier. -/
def addIdentity (pool : Pool) (outcome : Outcome) (id : String) (versions : List Member) :
    Outcome :=
  match creator? pool versions with
  | some creator =>
    { outcome with
      merged := outcome.merged ++ [(creator.mod, mergeVersions pool creator versions)] }
  | none =>
    { outcome with
      orphans := outcome.orphans ++ [id]
      notices := outcome.notices ++ [orphanNotice id versions] }

/-- The versions merged into one record for each identifier. -/
def mergeAll (pool : Pool) (members : List Member) : Outcome :=
  (byId pool members).foldl
    (fun outcome (id, versions) => addIdentity pool outcome id versions) {}

/-- The pool with the merged records, and the group of them. -/
def Outcome.place (outcome : Outcome) (pool : Pool) : Pool × Group :=
  let (filled, refs) := pool.addAll (outcome.merged.map Prod.snd)
  (filled, ⟨List.zipWith Member.mk (outcome.merged.map Prod.fst) refs⟩)

end Merge

end Patchwork
