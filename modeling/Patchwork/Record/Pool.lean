import Patchwork.Record

/-!
# The pool of records

Mods, groups and closures refer to records; a change made through one
reference is seen through every other one to the same record.  The pool holds
the records, and a reference is a place in it.  A place is never given away
again, so two references are to one record exactly when they are equal.
-/

namespace Patchwork

/-- A place in the pool. -/
structure RecordRef where
  index : Nat
  deriving DecidableEq, Repr

/-- All records of a session, those no longer in any mod included. -/
structure Pool where
  records : Array Record := #[]
  deriving Inhabited

namespace Pool

/-- The record at a place. -/
def get (pool : Pool) (ref : RecordRef) : Record :=
  pool.records.getD ref.index default

/-- The place the next record will get. -/
def nextRef (pool : Pool) : RecordRef :=
  ⟨pool.records.size⟩

/-- The pool with one more record, at `nextRef`. -/
def add (pool : Pool) (record : Record) : Pool :=
  ⟨pool.records.push record⟩

/-- The pool with more records, and their places. -/
def addAll (pool : Pool) : List Record → Pool × List RecordRef
  | [] => (pool, [])
  | record :: rest =>
    let (filled, refs) := addAll (pool.add record) rest
    (filled, pool.nextRef :: refs)

/-- The pool with the record at a place changed. -/
def modify (pool : Pool) (ref : RecordRef) (change : Record → Record) : Pool :=
  ⟨pool.records.modify ref.index change⟩

/-- Whether a place is in use. -/
def Holds (pool : Pool) (ref : RecordRef) : Prop :=
  ref.index < pool.records.size

/-- The label of the record at a place. -/
def label (pool : Pool) (ref : RecordRef) : String :=
  (pool.get ref).label

@[simp]
theorem get_add_nextRef (pool : Pool) (record : Record) :
    (pool.add record).get pool.nextRef = record := by
  simp [get, add, nextRef]

theorem get_add_of_holds {pool : Pool} {ref : RecordRef} (record : Record)
    (hholds : pool.Holds ref) : (pool.add record).get ref = pool.get ref := by
  simp only [Holds] at hholds
  simp [get, add, Array.getElem?_push, Nat.ne_of_lt hholds]

theorem get_modify_self {pool : Pool} {ref : RecordRef} (change : Record → Record)
    (hholds : pool.Holds ref) :
    (pool.modify ref change).get ref = change (pool.get ref) := by
  simp only [Holds] at hholds
  simp [get, modify, hholds, Array.getElem_modify]

theorem get_modify_of_ne {pool : Pool} {ref other : RecordRef}
    (change : Record → Record) (hne : ref ≠ other) :
    (pool.modify ref change).get other = pool.get other := by
  have hindex : ref.index ≠ other.index := by
    intro heq
    apply hne
    cases ref
    cases other
    simp_all
  simp [get, modify, Array.getElem?_modify, hindex]

end Pool

end Patchwork
