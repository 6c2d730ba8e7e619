import Patchwork.Proofs.Remerge.Mirrors
import Patchwork.Proofs.Trails.Edits

/-!
# What a series of edits amounts to

Edits of records with different identifiers are written one after the other.  In the end each of
these records has all of its edits, and so has the mod's own version of it, which is made as an
override when the first of them is written; everything else is as it was.
-/

namespace Patchwork

/-! ## A record and its edits -/

namespace Record

/-- A record with edits written one after the other. -/
def edited (record : Record) (edits : List Edit) : Record :=
  edits.foldl (fun record edit => edit.apply record) record

variable {edits : List Edit}

@[simp]
theorem edited_nil (record : Record) : record.edited [] = record := rfl

@[simp]
theorem edited_singleton (record : Record) (edit : Edit) :
    record.edited [edit] = edit.apply record := rfl

theorem edited_append (record : Record) (first second : List Edit) :
    record.edited (first ++ second) = (record.edited first).edited second :=
  List.foldl_append

/-- Whatever each edit keeps is kept. -/
theorem read_edited {Value : Type} (read : Record → Value)
    (hread : ∀ (edit : Edit) (record : Record), read (edit.apply record) = read record)
    (record : Record) (edits : List Edit) : read (record.edited edits) = read record := by
  induction edits generalizing record with
  | nil => rfl
  | cons edit rest ih => exact (ih (edit.apply record)).trans (hread edit record)

@[simp]
theorem id_edited (record : Record) (edits : List Edit) : (record.edited edits).id = record.id :=
  read_edited Record.id Edit.id_apply record edits

end Record

/-- The version a mod has of a record after edits of it, given the version it had. -/
def Mod.editedVersion (own? : Option Record) (view : Record) (mod : String) :
    List Record.Edit → Option Record
  | [] => own?
  | edit :: rest => some ((own?.getD (Merge.overrideOf view mod)).edited (edit :: rest))

namespace Mod

variable {own? : Option Record} {view : Record} {mod : String}

@[simp]
theorem editedVersion_nil : editedVersion own? view mod [] = own? := rfl

theorem editedVersion_of_ne_nil {edits : List Record.Edit} (hedits : edits ≠ []) :
    editedVersion own? view mod edits =
      some ((own?.getD (Merge.overrideOf view mod)).edited edits) := by
  cases edits with
  | nil => exact absurd rfl hedits
  | cons edit rest => rfl

theorem editedVersion_append (first second : List Record.Edit) :
    editedVersion own? view mod (first ++ second) =
      editedVersion (editedVersion own? view mod first) (view.edited first) mod second := by
  cases first with
  | nil => rfl
  | cons edit rest =>
    have hstill : editedVersion own? view mod ((edit :: rest) ++ second) =
        some ((own?.getD (Merge.overrideOf view mod)).edited ((edit :: rest) ++ second)) := rfl
    rw [hstill, Record.edited_append]
    cases second <;> rfl

end Mod

/-! ## All records -/

/-- Edits have been written to targets: to each target its own ones, in order.  Of everything else
nothing has changed, apart from the versions of the targets that the mod has. -/
structure Amended (targets : List RecordRef) (edits : RecordRef → List Record.Edit) (pool : Pool)
    (mod : Mod) (later : Pool) (patched : Mod) : Prop where
  name : patched.name = mod.name
  deleted : patched.deleted = mod.deleted
  holds : ∀ ref, pool.Holds ref → later.Holds ref
  ownHeld : ∀ own ∈ patched.records, own ∈ mod.records ∨ later.Holds own
  target : ∀ target ∈ targets, later.get target = (pool.get target).edited (edits target)
  version : ∀ target ∈ targets, patched.version? later (pool.get target).id =
    Mod.editedVersion (mod.version? pool (pool.get target).id) (pool.get target) mod.name
      (edits target)
  others : ∀ id, (∀ target ∈ targets, (pool.get target).id ≠ id) →
    patched.version? later id = mod.version? pool id
  rest : ∀ ref, pool.Holds ref → ref ∉ targets →
    (∀ target ∈ targets, mod.find? pool (pool.get target).id ≠ some ref) →
      later.get ref = pool.get ref
  found : ∀ id ref, mod.find? pool id = some ref → patched.find? later id = some ref
  made : ∀ id ref, mod.find? pool id = none → patched.find? later id = some ref →
    ¬ pool.Holds ref

namespace Amended

variable {targets : List RecordRef} {edits more : RecordRef → List Record.Edit}
  {pool later last : Pool} {mod patched final : Mod}

/-- Nothing has been written. -/
theorem of_same (hrecords : patched.records = mod.records) (hname : patched.name = mod.name)
    (hdeleted : patched.deleted = mod.deleted) :
    Amended targets (fun _ => []) pool mod pool patched := by
  have hfind : ∀ id, patched.find? pool id = mod.find? pool id := fun id => by
    rw [Mod.find?, Mod.find?, hrecords]
  have hversion : ∀ id, patched.version? pool id = mod.version? pool id := fun id => by
    rw [Mod.version?, Mod.version?, hfind]
  exact {
    name := hname
    deleted := hdeleted
    holds := fun _ hheld => hheld
    ownHeld := fun own hown => Or.inl (hrecords ▸ hown)
    target := fun _ _ => rfl
    version := fun _ _ => hversion _
    others := fun id _ => hversion id
    rest := fun _ _ _ _ => rfl
    found := fun id ref hfound => (hfind id).trans hfound
    made := fun id ref hnone hfound => by
      rw [hfind, hnone] at hfound
      cases hfound }

theorem congr (hamended : Amended targets edits pool mod later patched)
    (hsame : ∀ target ∈ targets, edits target = more target) :
    Amended targets more pool mod later patched :=
  { hamended with
    target := fun target htarget => hsame target htarget ▸ hamended.target target htarget
    version := fun target htarget => hsame target htarget ▸ hamended.version target htarget }

theorem id_eq (hamended : Amended targets edits pool mod later patched) {target : RecordRef}
    (htarget : target ∈ targets) : (later.get target).id = (pool.get target).id := by
  rw [hamended.target target htarget, Record.id_edited]

/-- All records keep their identifiers. -/
theorem id_of_holds (hamended : Amended targets edits pool mod later patched) {ref : RecordRef}
    (hheld : pool.Holds ref) : (later.get ref).id = (pool.get ref).id := by
  by_cases htarget : ref ∈ targets
  · exact hamended.id_eq htarget
  · by_cases hown : ∃ target ∈ targets, mod.find? pool (pool.get target).id = some ref
    · obtain ⟨target, -, hfind⟩ := hown
      have hlater := (Mod.mem_of_find? (hamended.found _ _ hfind)).2
      rw [hlater, (Mod.mem_of_find? hfind).2]
    · rw [hamended.rest ref hheld htarget fun target hmem hfind => hown ⟨target, hmem, hfind⟩]

/-- First these edits are written and then those. -/
theorem trans (hfirst : Amended targets edits pool mod later patched)
    (hsecond : Amended targets more later patched last final) :
    Amended targets (fun target => edits target ++ more target) pool mod last final where
  name := hsecond.name.trans hfirst.name
  deleted := hsecond.deleted.trans hfirst.deleted
  holds := fun ref hheld => hsecond.holds ref (hfirst.holds ref hheld)
  ownHeld := by
    intro own hown
    rcases hsecond.ownHeld own hown with hold | hheld
    · exact (hfirst.ownHeld own hold).imp_right (hsecond.holds own)
    · exact Or.inr hheld
  target := by
    intro target htarget
    rw [hsecond.target target htarget, hfirst.target target htarget, Record.edited_append]
  version := by
    intro target htarget
    have hversion := hsecond.version target htarget
    rw [hfirst.id_eq htarget, hfirst.version target htarget, hfirst.target target htarget,
      hfirst.name] at hversion
    rw [hversion, Mod.editedVersion_append]
  others := by
    intro id hothers
    rw [hsecond.others id fun target htarget => hfirst.id_eq htarget ▸ hothers target htarget]
    exact hfirst.others id hothers
  rest := by
    intro ref hheld hnot hown
    rw [hsecond.rest ref (hfirst.holds ref hheld) hnot, hfirst.rest ref hheld hnot hown]
    intro target htarget hfound
    rw [hfirst.id_eq htarget] at hfound
    cases hfind : mod.find? pool (pool.get target).id with
    | none => exact hfirst.made _ _ hfind hfound hheld
    | some own =>
      rw [hfirst.found _ _ hfind] at hfound
      cases hfound
      exact hown target htarget hfind
  found := fun id ref hfind => hsecond.found id ref (hfirst.found id ref hfind)
  made := by
    intro id ref hnone hlast hheld
    cases hfind : patched.find? later id with
    | none => exact hsecond.made id ref hfind hlast (hfirst.holds ref hheld)
    | some own =>
      rw [hsecond.found id own hfind] at hlast
      cases hlast
      exact hfirst.made id _ hnone hfind hheld

end Amended

/-! ## One write -/

/-- The targets of edits: records with different identifiers, in a pool that has them and the
records of the mod. -/
structure Targets (targets : List RecordRef) (pool : Pool) (mod : Mod) : Prop where
  held : ∀ target ∈ targets, pool.Holds target
  ownHeld : ∀ own ∈ mod.records, pool.Holds own
  apart : ∀ first ∈ targets, ∀ second ∈ targets,
    (pool.get first).id = (pool.get second).id → first = second

theorem Targets.amended {targets : List RecordRef} {edits : RecordRef → List Record.Edit}
    {pool later : Pool} {mod patched : Mod} (htargets : Targets targets pool mod)
    (hamended : Amended targets edits pool mod later patched) : Targets targets later patched where
  held target htarget := hamended.holds target (htargets.held target htarget)
  ownHeld own hown := by
    rcases hamended.ownHeld own hown with hold | hheld
    · exact hamended.holds own (htargets.ownHeld own hold)
    · exact hheld
  apart first hfirst second hsecond hsame := by
    rw [hamended.id_eq hfirst, hamended.id_eq hsecond] at hsame
    exact htargets.apart first hfirst second hsecond hsame

/-- The edits of one record. -/
def onlyOn (target : RecordRef) (edits : List Record.Edit) (ref : RecordRef) : List Record.Edit :=
  if ref = target then edits else []

@[simp]
theorem onlyOn_self (target : RecordRef) (edits : List Record.Edit) :
    onlyOn target edits target = edits :=
  if_pos rfl

theorem onlyOn_of_ne {target ref : RecordRef} (hother : ref ≠ target) (edits : List Record.Edit) :
    onlyOn target edits ref = [] :=
  if_neg hother

/-! ## Where a write arrives -/

namespace Mod.Reaches

variable {pool reached : Pool} {mod patched : Mod} {target own : RecordRef}
  (hreaches : mod.Reaches pool target own reached patched)

include hreaches

theorem id_own : (reached.get own).id = (pool.get target).id := by
  cases hreaches with
  | found hfind => exact (Mod.mem_of_find? hfind).2
  | made _ => rw [Pool.get_add_nextRef]

/-- The version that is reached was found, or it was not there before. -/
theorem found_or_made : mod.find? pool (pool.get target).id = some own ∨
    mod.find? pool (pool.get target).id = none ∧ ¬ pool.Holds own := by
  cases hreaches with
  | found hfind => exact Or.inl hfind
  | made hnone => exact Or.inr ⟨hnone, pool.not_holds_nextRef⟩

theorem get_own : reached.get own =
    (mod.version? pool (pool.get target).id).getD
      (Merge.overrideOf (pool.get target) mod.name) := by
  cases hreaches with
  | found hfind => rw [Mod.version?, hfind, Option.map_some, Option.getD_some]
  | made hnone =>
    rw [Mod.version?, hnone, Option.map_none, Option.getD_none, Pool.get_add_nextRef]
    rfl

variable (hheld : ∀ own ∈ mod.records, pool.Holds own)

include hheld

theorem holds_own : reached.Holds own := by
  cases hreaches with
  | found hfind => exact hheld own (Mod.mem_of_find? hfind).1
  | made _ => exact pool.holds_add_nextRef _

theorem find?_reached (id : String) : mod.find? reached id = mod.find? pool id := by
  refine Mod.find?_congr (fun other hother => ?_) id
  rw [(hreaches.keptIn other (hheld other hother)).2]

theorem find?_own : patched.find? reached (pool.get target).id = some own := by
  have hsame := hreaches.find?_reached hheld (pool.get target).id
  have hid := hreaches.id_own
  cases hreaches with
  | found hfind => exact hfind
  | made hnone => exact Mod.find?_addRecord (hsame.trans hnone) hid

/-- Looking another identifier up gives what it gave. -/
theorem find?_of_ne {id : String} (hother : id ≠ (pool.get target).id) :
    patched.find? reached id = mod.find? pool id := by
  have hsame := hreaches.find?_reached hheld id
  have hid := hreaches.id_own
  cases hreaches with
  | found _ => rfl
  | made hnone =>
    rw [Mod.find?] at hsame
    rw [Mod.find?, Mod.addRecord, List.find?_append, hsame,
      List.find?_singleton, hid, if_neg (by simpa using hother.symm), Option.or_none]

end Mod.Reaches

namespace Pool

variable {reached : Pool} {own target : RecordRef}

theorem holds_writeBoth {ref : RecordRef} (edit : Record.Edit) :
    (reached.writeBoth own target edit).Holds ref ↔ reached.Holds ref := by
  unfold writeBoth
  split <;> simp

theorem id_writeBoth (edit : Record.Edit) (ref : RecordRef) :
    ((reached.writeBoth own target edit).get ref).id = (reached.get ref).id := by
  unfold writeBoth
  split
  · exact Pool.read_modify Record.id edit.id_apply _ _ _
  · rw [Pool.read_modify Record.id edit.id_apply, Pool.read_modify Record.id edit.id_apply]

end Pool

namespace Amended

variable {targets : List RecordRef} {pool reached : Pool} {mod patched : Mod}
  {target own : RecordRef}

/-- An edit of a target changes no version of another record. -/
theorem version?_writeBoth_of_ne (hheld : ∀ own ∈ mod.records, pool.Holds own)
    (hreaches : mod.Reaches pool target own reached patched) {id : String}
    (hother : id ≠ (pool.get target).id) (edit : Record.Edit) :
    patched.version? (reached.writeBoth own target edit) id = mod.version? pool id := by
  have hfind : patched.find? (reached.writeBoth own target edit) id = mod.find? pool id :=
    (Mod.find?_congr (fun other _ => Pool.id_writeBoth edit other) id).trans
      (hreaches.find?_of_ne hheld hother)
  rw [Mod.version?, Mod.version?, hfind]
  cases hfound : mod.find? pool id with
  | none => rfl
  | some found =>
    obtain ⟨hmem, hid⟩ := Mod.mem_of_find? hfound
    obtain ⟨hstill, hsame⟩ := hreaches.keptIn found (hheld found hmem)
    have hne : ¬ (found = own ∨ found = target) := by
      rintro (rfl | rfl)
      · exact hother (hid.symm.trans (hsame ▸ hreaches.id_own))
      · exact hother hid.symm
    rw [Option.map_some, Option.map_some, Pool.get_writeBoth hstill, if_neg hne, hsame]

/-- An edit is written to a target and to the version that the mod has of it. -/
theorem of_writeBoth (htargets : Targets targets pool mod) (htarget : target ∈ targets)
    (hreaches : mod.Reaches pool target own reached patched) (edit : Record.Edit) :
    Amended targets (onlyOn target [edit]) pool mod (reached.writeBoth own target edit) patched := by
  have hkept : pool.KeptIn reached := hreaches.keptIn
  have hownHeld : reached.Holds own := hreaches.holds_own htargets.ownHeld
  have hget : ∀ ref, reached.Holds ref → (reached.writeBoth own target edit).get ref =
      if ref = own ∨ ref = target then edit.apply (reached.get ref) else reached.get ref :=
    fun ref href => Pool.get_writeBoth href own target edit
  have hfind : ∀ id, patched.find? (reached.writeBoth own target edit) id =
      patched.find? reached id :=
    Mod.find?_congr fun other _ => Pool.id_writeBoth edit other
  have hfindOwn := hreaches.find?_own htargets.ownHeld
  have hfindOther : ∀ {id}, id ≠ (pool.get target).id →
      patched.find? reached id = mod.find? pool id := hreaches.find?_of_ne htargets.ownHeld
  have hversionOther : ∀ id, id ≠ (pool.get target).id →
      patched.version? (reached.writeBoth own target edit) id = mod.version? pool id :=
    fun id hother => version?_writeBoth_of_ne htargets.ownHeld hreaches hother edit
  exact {
    name := by cases hreaches <;> rfl
    deleted := by cases hreaches <;> rfl
    holds := fun ref hheld => (Pool.holds_writeBoth edit).mpr (hkept ref hheld).1
    ownHeld := by
      intro other hother
      cases hreaches with
      | found _ => exact Or.inl hother
      | made _ =>
        refine (List.mem_append.mp hother).imp_right fun hlast => ?_
        rw [List.mem_singleton.mp hlast]
        exact (Pool.holds_writeBoth edit).mpr hownHeld
    target := by
      intro other hmem
      obtain ⟨hheld, hsame⟩ := hkept other (htargets.held other hmem)
      rw [hget other hheld, hsame]
      by_cases heq : other = target
      · rw [heq, onlyOn_self, if_pos (Or.inr rfl), Record.edited_singleton]
      · rw [onlyOn_of_ne heq, Record.edited_nil, if_neg]
        rintro (rfl | rfl)
        · exact heq (htargets.apart other hmem target htarget (hsame ▸ hreaches.id_own))
        · exact heq rfl
    version := by
      intro other hmem
      by_cases heq : other = target
      · rw [heq, onlyOn_self, Mod.version?, hfind, hfindOwn, Option.map_some, hget own hownHeld,
          if_pos (Or.inl rfl), hreaches.get_own]
        rfl
      · rw [onlyOn_of_ne heq, Mod.editedVersion_nil, hversionOther]
        exact fun hsame => heq (htargets.apart other hmem target htarget hsame)
    others := fun id hothers => hversionOther id (Ne.symm (hothers target htarget))
    rest := by
      intro ref hheld hnot hown
      obtain ⟨hstill, hsame⟩ := hkept ref hheld
      rw [hget ref hstill, if_neg, hsame]
      rintro (rfl | rfl)
      · rcases hreaches.found_or_made with hfound | ⟨-, hnew⟩
        · exact hown target htarget hfound
        · exact hnew hheld
      · exact hnot htarget
    found := by
      intro id ref hfound
      rw [hfind]
      by_cases hid : id = (pool.get target).id
      · rw [hid] at hfound ⊢
        rcases hreaches.found_or_made with hown | ⟨hnone, -⟩
        · rw [hfindOwn, ← hown, hfound]
        · rw [hnone] at hfound
          cases hfound
      · rw [hfindOther hid, hfound]
    made := by
      intro id ref hnone hfound
      rw [hfind] at hfound
      by_cases hid : id = (pool.get target).id
      · rw [hid] at hnone hfound
        rw [hfindOwn] at hfound
        cases hfound
        rcases hreaches.found_or_made with hown | ⟨-, hnew⟩
        · rw [hown] at hnone
          cases hnone
        · exact hnew
      · rw [hfindOther hid, hnone] at hfound
        cases hfound }

end Amended

namespace Work

variable {target : RecordRef} {targets : List RecordRef} {before after : Workbench}

/-- A write that gives a result. -/
theorem amended_write (htargets : Targets targets before.pool before.mod)
    (htarget : target ∈ targets) {edit : Record.Edit} {result : PUnit}
    (hyields : (write target edit.apply).Yields before result after) :
    (before.pool.get target).id ∉ before.mod.deleted ∧
      Amended targets (onlyOn target [edit]) before.pool before.mod after.pool after.mod := by
  obtain ⟨own, between, hown, hmod, hpool⟩ := yields_write hyields
  obtain ⟨hundeleted, hcases⟩ := yields_ownVersion hown
  refine ⟨hundeleted, ?_⟩
  rw [hmod, hpool]
  rcases hcases with ⟨hfind, rfl⟩ | ⟨hnone, rfl, hadded, hpatched⟩
  · exact Amended.of_writeBoth htargets htarget (.found hfind) edit
  · rw [hadded, hpatched]
    exact Amended.of_writeBoth htargets htarget (.made hnone) edit

/-- Operations one after the other give a result that takes no mark, if the first one gives a
result from which the others do. -/
theorem exists_yields_bind {Result Other : Type} {work : Work Result}
    {next : Result → Work Other} {marks : Nat}
    (hyields : ∃ given between, work.Yields before given between ∧
      ∃ result after, (next given).Yields between result after ∧ after.marks = marks) :
    ∃ result after, (work >>= next).Yields before result after ∧ after.marks = marks := by
  obtain ⟨given, between, hfirst, result, after, hnext, hmarks⟩ := hyields
  exact ⟨result, after, yields_bind.mpr ⟨given, between, hfirst, hnext⟩, hmarks⟩

/-- A record that has not been deleted has an own version. -/
theorem exists_yields_ownVersion (hundeleted : (before.pool.get target).id ∉ before.mod.deleted) :
    ∃ own after, (ownVersion target).Yields before own after ∧ after.marks = before.marks := by
  unfold ownVersion
  refine exists_yields_bind ⟨before, before, yields_get.mpr ⟨rfl, rfl⟩, ?_⟩
  simp only [List.contains_eq_mem, hundeleted, decide_false, Bool.false_eq_true, if_false]
  cases hfind : before.mod.find? before.pool (before.pool.get target).id with
  | some own => exact ⟨own, before, yields_pure.mpr ⟨rfl, rfl⟩, rfl⟩
  | none =>
    refine exists_yields_bind ⟨_, _, yields_append.mpr ⟨rfl, rfl⟩, ?_⟩
    refine exists_yields_bind ⟨(), _, yields_note.mpr rfl, ?_⟩
    exact ⟨_, _, yields_pure.mpr ⟨rfl, rfl⟩, rfl⟩

/-- A write to a record that has not been deleted gives a result. -/
theorem exists_yields_write (edit : Record → Record)
    (hundeleted : (before.pool.get target).id ∉ before.mod.deleted) :
    ∃ result after, (write target edit).Yields before result after ∧
      after.marks = before.marks := by
  obtain ⟨own, between, hown, hmarks⟩ := exists_yields_ownVersion hundeleted
  refine exists_yields_bind ⟨own, between, hown, ?_⟩
  refine exists_yields_bind ⟨(), _, yields_change.mpr rfl, ?_⟩
  split
  · exact ⟨(), _, yields_change.mpr rfl, hmarks⟩
  · exact ⟨(), _, yields_pure.mpr ⟨rfl, rfl⟩, hmarks⟩

end Work

/-! ## In a run -/

namespace World

variable {targets : List RecordRef} {edits more : RecordRef → List Record.Edit}
  {before between after : World} {target : RecordRef}

/-- The targets of edits in a run: there is a mod being patched, they have different identifiers,
and all records are in the pool. -/
def HasTargets (world : World) (targets : List RecordRef) : Prop :=
  ∃ mod, world.active = some mod ∧ Targets targets world.pool mod

/-- Edits have been written to targets and to the mod being patched. -/
def Amended (targets : List RecordRef) (edits : RecordRef → List Record.Edit)
    (before after : World) : Prop :=
  ∃ mod patched, before.active = some mod ∧ after.active = some patched ∧
    Patchwork.Amended targets edits before.pool mod after.pool patched

theorem HasTargets.amended (htargets : before.HasTargets targets)
    (hamended : Amended targets edits before after) : after.HasTargets targets := by
  obtain ⟨mod, hmod, htargets⟩ := htargets
  obtain ⟨other, patched, hother, hpatched, hamended⟩ := hamended
  obtain rfl := Option.some.inj (hmod.symm.trans hother)
  exact ⟨patched, hpatched, htargets.amended hamended⟩

/-- Nothing has been written. -/
theorem HasTargets.amended_of_same (htargets : before.HasTargets targets)
    (hpool : after.pool = before.pool) (hactive : after.active = before.active) :
    Amended targets (fun _ => []) before after := by
  obtain ⟨mod, hmod, -⟩ := htargets
  refine ⟨mod, mod, hmod, hactive.trans hmod, ?_⟩
  rw [hpool]
  exact Patchwork.Amended.of_same rfl rfl rfl

theorem Amended.trans (hfirst : Amended targets edits before between)
    (hsecond : Amended targets more between after) :
    Amended targets (fun target => edits target ++ more target) before after := by
  obtain ⟨mod, patched, hmod, hpatched, hfirst⟩ := hfirst
  obtain ⟨other, final, hother, hfinal, hsecond⟩ := hsecond
  obtain rfl := Option.some.inj (hpatched.symm.trans hother)
  exact ⟨mod, final, hmod, hfinal, hfirst.trans hsecond⟩

theorem Amended.congr (hamended : Amended targets edits before after)
    (hsame : ∀ target ∈ targets, edits target = more target) :
    Amended targets more before after := by
  obtain ⟨mod, patched, hmod, hpatched, hamended⟩ := hamended
  exact ⟨mod, patched, hmod, hpatched, hamended.congr hsame⟩

/-- A write by the mod being patched. -/
theorem HasTargets.amended_write (htargets : before.HasTargets targets) (htarget : target ∈ targets)
    {edit : Record.Edit} {result : PUnit}
    (hyields : (Eval.onActive (Work.write target edit.apply)).Yields before result after) :
    Amended targets (onlyOn target [edit]) before after := by
  obtain ⟨mod, hmod, htargets⟩ := htargets
  obtain ⟨other, bench, hother, hwrite, rfl⟩ := Eval.yields_onActive.mp hyields
  obtain rfl := Option.some.inj (hmod.symm.trans hother)
  exact ⟨mod, bench.mod, hmod, rfl, (Work.amended_write htargets htarget hwrite).2⟩

/-- The mod being patched can write to a record that has not been deleted. -/
theorem exists_yields_write {mod : Mod} (hmod : before.active = some mod)
    (edit : Record → Record) (hundeleted : (before.pool.get target).id ∉ mod.deleted) :
    ∃ result after, (Eval.onActive (Work.write target edit)).Yields before result after ∧
      after.marks = before.marks := by
  let start : Workbench := ⟨before.pool, mod, before.journal, before.marks⟩
  have hstart : (start.pool.get target).id ∉ start.mod.deleted := hundeleted
  obtain ⟨result, bench, hyields, hmarks⟩ := Work.exists_yields_write edit hstart
  exact ⟨result, _, Eval.yields_onActive.mpr ⟨mod, bench, hmod, hyields, rfl⟩, hmarks⟩

end World

end Patchwork
