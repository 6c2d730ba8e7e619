import Patchwork.Record.Group
import Mathlib.Data.List.Nodup

/-!
# Pools that grow

Records are added to the pool and never leave it.  This file says what adding
records and changing one of them leave as it was, and where added records are
found.
-/

namespace Patchwork

namespace Pool

/-- Every record of the pool is in the other one, at its place and
unchanged. -/
def KeptIn (pool later : Pool) : Prop :=
  ∀ ref, pool.Holds ref → later.Holds ref ∧ later.get ref = pool.get ref

theorem KeptIn.refl (pool : Pool) : pool.KeptIn pool :=
  fun _ hholds => ⟨hholds, rfl⟩

theorem KeptIn.trans {first second third : Pool} (hleft : first.KeptIn second)
    (hright : second.KeptIn third) : first.KeptIn third := by
  intro ref hholds
  obtain ⟨hsecond, hget⟩ := hleft ref hholds
  obtain ⟨hthird, hlast⟩ := hright ref hsecond
  exact ⟨hthird, hlast.trans hget⟩

theorem get_of_not_holds {pool : Pool} {ref : RecordRef} (hholds : ¬ pool.Holds ref) :
    pool.get ref = default := by
  simp only [Holds, Nat.not_lt] at hholds
  simp [get, hholds]

theorem not_holds_nextRef (pool : Pool) : ¬ pool.Holds pool.nextRef := by
  simp [Holds, nextRef]

theorem holds_add_nextRef (pool : Pool) (record : Record) :
    (pool.add record).Holds pool.nextRef := by
  simp [Holds, nextRef, add]

theorem holds_add_iff {pool : Pool} {record : Record} {ref : RecordRef} :
    (pool.add record).Holds ref ↔ pool.Holds ref ∨ ref = pool.nextRef := by
  obtain ⟨index⟩ := ref
  simp only [Holds, add, Array.size_push, nextRef, RecordRef.mk.injEq]
  omega

theorem keptIn_add (pool : Pool) (record : Record) : pool.KeptIn (pool.add record) := by
  intro ref hholds
  refine ⟨?_, get_add_of_holds record hholds⟩
  simp only [Holds, add, Array.size_push] at hholds ⊢
  omega

theorem get_add_of_ne {pool : Pool} {ref : RecordRef} (record : Record)
    (hother : ref ≠ pool.nextRef) : (pool.add record).get ref = pool.get ref := by
  by_cases hheld : pool.Holds ref
  · exact pool.get_add_of_holds record hheld
  · have hbeyond : pool.records.size < ref.index := by
      refine Nat.lt_of_le_of_ne (Nat.not_lt.mp hheld) fun hsame => hother ?_
      rw [Pool.nextRef, hsame]
    have hleast := Nat.le_of_lt hbeyond
    simp [Pool.get, Pool.add, Array.getElem?_push, Nat.ne_of_gt hbeyond, hleast]

@[simp]
theorem holds_modify {pool : Pool} {ref other : RecordRef} {change : Record → Record} :
    (pool.modify ref change).Holds other ↔ pool.Holds other := by
  simp [Holds, modify]

theorem get_modify_of_not_holds {pool : Pool} {ref : RecordRef} (change : Record → Record)
    (hholds : ¬ pool.Holds ref) (other : RecordRef) :
    (pool.modify ref change).get other = pool.get other := by
  by_cases heq : ref = other
  · subst heq
    simp only [Holds, Nat.not_lt] at hholds
    simp [get, modify, hholds]
  · exact get_modify_of_ne change heq

/-- Reading something that a change leaves as it is. -/
theorem read_modify {Value : Type} (read : Record → Value) {change : Record → Record}
    (hread : ∀ record, read (change record) = read record) (pool : Pool)
    (ref other : RecordRef) :
    read ((pool.modify ref change).get other) = read (pool.get other) := by
  by_cases heq : ref = other
  · subst heq
    by_cases hholds : pool.Holds ref
    · rw [get_modify_self change hholds, hread]
    · rw [get_modify_of_not_holds change hholds]
  · rw [get_modify_of_ne change heq]

/-! ## Several records at once -/

theorem keptIn_addAll (pool : Pool) (records : List Record) :
    pool.KeptIn (pool.addAll records).1 := by
  induction records generalizing pool with
  | nil => exact KeptIn.refl pool
  | cons record rest ih => exact (keptIn_add pool record).trans (ih (pool.add record))

theorem get_addAll (pool : Pool) (records : List Record) :
    (pool.addAll records).2.map (pool.addAll records).1.get = records := by
  induction records generalizing pool with
  | nil => rfl
  | cons record rest ih =>
    have hkept := keptIn_addAll (pool.add record) rest pool.nextRef
      (holds_add_nextRef pool record)
    simp only [addAll, List.map_cons, ih, hkept.2, get_add_nextRef]

theorem mem_addAll {pool : Pool} {records : List Record} {ref : RecordRef}
    (hmem : ref ∈ (pool.addAll records).2) :
    ¬ pool.Holds ref ∧ (pool.addAll records).1.Holds ref := by
  induction records generalizing pool with
  | nil => cases hmem
  | cons record rest ih =>
    simp only [addAll, List.mem_cons] at hmem ⊢
    obtain rfl | hrest := hmem
    · exact ⟨not_holds_nextRef pool,
        (keptIn_addAll _ rest _ (holds_add_nextRef pool record)).1⟩
    · obtain ⟨hfresh, hholds⟩ := ih hrest
      exact ⟨fun hold => hfresh (keptIn_add pool record ref hold).1, hholds⟩

/-- No places come into use but those of the added records. -/
theorem mem_addAll_of_holds {pool : Pool} {records : List Record} {ref : RecordRef}
    (hholds : (pool.addAll records).1.Holds ref) (hnew : ¬ pool.Holds ref) :
    ref ∈ (pool.addAll records).2 := by
  induction records generalizing pool with
  | nil => exact absurd hholds hnew
  | cons record rest ih =>
    by_cases hadded : (pool.add record).Holds ref
    · rw [(holds_add_iff.mp hadded).resolve_left hnew]
      exact List.mem_cons_self
    · exact List.mem_cons_of_mem _ (ih hholds hadded)

theorem size_le_of_keptIn {pool later : Pool} (hkept : pool.KeptIn later) :
    pool.records.size ≤ later.records.size := by
  by_contra hfewer
  have hlast : pool.Holds ⟨later.records.size⟩ := Nat.not_le.mp hfewer
  exact Nat.lt_irrefl _ (hkept _ hlast).1

@[simp]
theorem length_addAll (pool : Pool) (records : List Record) :
    (pool.addAll records).2.length = records.length := by
  induction records generalizing pool with
  | nil => rfl
  | cons record rest ih => simp [addAll, ih]

/-! ## All records -/

/-- All records of the pool have a property, and so has the record that stands in for the
ones it does not hold. -/
def All (holds : Record → Prop) (pool : Pool) : Prop :=
  ∀ ref, holds (pool.get ref)

namespace All

variable {holds : Record → Prop} {pool : Pool} (hall : pool.All holds)

include hall

theorem add {record : Record} (hrecord : holds record) : (pool.add record).All holds := by
  intro ref
  by_cases hlast : ref = pool.nextRef
  · rw [hlast, Pool.get_add_nextRef]
    exact hrecord
  · rw [Pool.get_add_of_ne _ hlast]
    exact hall ref

theorem addAll {records : List Record} (hrecords : ∀ record ∈ records, holds record) :
    (pool.addAll records).1.All holds := by
  induction records generalizing pool with
  | nil => exact hall
  | cons record rest ih =>
    exact ih (hall.add (hrecords record List.mem_cons_self)) fun other hother =>
      hrecords other (List.mem_cons_of_mem _ hother)

theorem modify (ref : RecordRef) {edit : Record → Record}
    (hedit : ∀ record, holds record → holds (edit record)) : (pool.modify ref edit).All holds := by
  intro other
  by_cases hsame : ref = other
  · subst hsame
    by_cases hheld : pool.Holds ref
    · rw [Pool.get_modify_self edit hheld]
      exact hedit _ (hall ref)
    · rw [Pool.get_modify_of_not_holds edit hheld]
      exact hall ref
  · rw [Pool.get_modify_of_ne edit hsame]
    exact hall other

end All

end Pool

end Patchwork
