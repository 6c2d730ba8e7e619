import Patchwork.Record.Pool

/-!
# Record groups

A group is a list of records, each with the mod it was taken from.  Groups are
what scripts select and what procedures work on.
-/

namespace Patchwork

/-- The elements of a list without repetitions, in the order in which each came
first. -/
def distinct {α : Type} [BEq α] : List α → List α
  | [] => []
  | first :: rest => first :: (distinct rest).filter fun other => !(other == first)

/-- A record and the mod it was taken from. -/
structure Member where
  mod : String
  record : RecordRef
  deriving DecidableEq, Repr

/-- Records with their mods, in order. -/
structure Group where
  members : List Member := []
  deriving DecidableEq, Repr, Inhabited

/-- The two lists of a group are of different length. -/
structure UnevenGroup where
  mods : Nat
  records : Nat

/-- The text of the error. -/
def UnevenGroup.message (fault : UnevenGroup) : String :=
  "RecordGroup needs one mod name per record (" ++ integerText fault.mods ++ " names, " ++
    integerText fault.records ++ " records)"

namespace Group

/-- The group of index-aligned mods and records. -/
def ofLists (mods : List String) (records : List RecordRef) : Except UnevenGroup Group :=
  if mods.length = records.length then .ok ⟨List.zipWith Member.mk mods records⟩
  else .error ⟨mods.length, records.length⟩

/-- How many records the group has. -/
def size (group : Group) : Nat :=
  group.members.length

/-- The records of the group. -/
def records (group : Group) : List RecordRef :=
  group.members.map Member.record

/-- The mods the records were taken from, each once, without the excluded
one. -/
def distinctMods (group : Group) (excluded : Option String) : List String :=
  (distinct (group.members.map Member.mod)).filter fun mod => some mod != excluded

/-- The first record with an identifier. -/
def find? (group : Group) (pool : Pool) (id : String) : Option RecordRef :=
  group.records.find? fun record => (pool.get record).id == id

/-- The records, one a line, given how each is called. -/
def text (label : RecordRef → String) (group : Group) : String :=
  if group.members.isEmpty then "<empty group>"
  else Text.joined "\n" (group.members.map fun member =>
    member.mod ++ " => " ++ label member.record)

@[simp]
theorem size_eq_length_records (group : Group) : group.records.length = group.size := by
  simp [records, size]

end Group

theorem mem_distinct {α : Type} [BEq α] [LawfulBEq α] {element : α} {list : List α} :
    element ∈ distinct list ↔ element ∈ list := by
  induction list with
  | nil => simp [distinct]
  | cons first rest ih =>
    by_cases heq : element = first <;> simp [distinct, ih, heq]

theorem nodup_distinct {α : Type} [BEq α] [LawfulBEq α] (list : List α) :
    (distinct list).Nodup := by
  induction list with
  | nil => simp [distinct]
  | cons first rest ih =>
    simp only [distinct, List.nodup_cons, List.mem_filter, Bool.not_eq_true',
      beq_self_eq_true, Bool.true_eq_false, and_false, not_false_eq_true, true_and]
    exact ih.filter _

end Patchwork
