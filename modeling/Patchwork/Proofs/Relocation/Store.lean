import Mathlib.Data.List.Basic
import Patchwork.Mod.Workbench
import Patchwork.Proofs.Record.Pool
import Patchwork.Proofs.Relocation.Operators

/-!
# Pools and mods after a relocation

Two pools correspond if every record is in the second one at its other place,
with its other marks.  The pools may hold further records there, which the first
one does not have.  Both still correspond when records are added to them or
changed alike, and merging gives corresponding records.

Every operation on a mod gives corresponding results and corresponding mods when
it starts with corresponding ones.
-/

namespace Patchwork

/-! ## Pools -/

namespace Pool

theorem size_add (pool : Pool) (record : Record) :
    (pool.add record).records.size = pool.records.size + 1 := by
  simp [add]

theorem size_modify (pool : Pool) (ref : RecordRef) (change : Record → Record) :
    (pool.modify ref change).records.size = pool.records.size := by
  simp [modify]

end Pool

namespace Relocation

variable (relocation : Relocation)

/-- Every record is at its other place with its other marks, new records get
places that correspond, and the loaded records are as they were. -/
structure Pools (left right : Pool) : Prop where
  get : ∀ ref, right.get (relocation.ref ref) = (left.get ref).remark relocation.mark
  next : ∀ offset,
    relocation.ref ⟨left.records.size + offset⟩ = ⟨right.records.size + offset⟩
  kept : relocation.KeptIn left

namespace Pools

variable {relocation}
variable {left right : Pool}

theorem holds_iff (hpools : relocation.Pools left right) (ref : RecordRef) :
    right.Holds (relocation.ref ref) ↔ left.Holds ref := by
  constructor
  · intro hright
    by_contra hleft
    obtain ⟨offset, hoffset⟩ := Nat.exists_eq_add_of_le (Nat.not_lt.mp hleft)
    have href : ref = ⟨left.records.size + offset⟩ := by rw [← hoffset]
    rw [href, hpools.next] at hright
    simp only [Pool.Holds] at hright
    omega
  · intro hleft
    by_contra hright
    obtain ⟨offset, hoffset⟩ := Nat.exists_eq_add_of_le (Nat.not_lt.mp hright)
    have href : relocation.ref ref = ⟨right.records.size + offset⟩ := by rw [← hoffset]
    rw [← hpools.next] at href
    rw [relocation.ref_injective href] at hleft
    simp only [Pool.Holds] at hleft
    omega

theorem label_ref (hpools : relocation.Pools left right) (ref : RecordRef) :
    right.label (relocation.ref ref) = left.label ref := by
  simp only [Pool.label, hpools.get, Record.label_remark]

theorem refs_nextRef (hpools : relocation.Pools left right) :
    relocation.Refs left.nextRef right.nextRef :=
  ⟨(hpools.next 0).symm, fun hloaded =>
    Pool.not_holds_nextRef left (hpools.kept left.nextRef hloaded).1⟩

theorem add (hpools : relocation.Pools left right) (record : Record) :
    relocation.Pools (left.add record) (right.add (record.remark relocation.mark)) where
  get ref := by
    by_cases hnext : ref = left.nextRef
    · subst hnext
      rw [← hpools.refs_nextRef.1, Pool.get_add_nextRef, Pool.get_add_nextRef]
    · have hnext' : relocation.ref ref ≠ right.nextRef := by
        rw [hpools.refs_nextRef.1]
        exact relocation.ref_injective.ne hnext
      by_cases hholds : left.Holds ref
      · rw [Pool.get_add_of_holds _ hholds,
          Pool.get_add_of_holds _ ((hpools.holds_iff ref).mpr hholds), hpools.get]
      · have hadded : ¬ (left.add record).Holds ref := by
          rw [Pool.holds_add_iff]
          exact not_or.mpr ⟨hholds, hnext⟩
        have hadded' : ¬ (right.add (record.remark relocation.mark)).Holds
            (relocation.ref ref) := by
          rw [Pool.holds_add_iff, hpools.holds_iff]
          exact not_or.mpr ⟨hholds, hnext'⟩
        rw [Pool.get_of_not_holds hadded, Pool.get_of_not_holds hadded', Record.remark_default]
  next offset := by
    rw [Pool.size_add, Pool.size_add, Nat.add_assoc, Nat.add_assoc]
    exact hpools.next (1 + offset)
  kept ref hloaded := by
    obtain ⟨hholds, hget⟩ := hpools.kept ref hloaded
    obtain ⟨hadded, hsame⟩ := Pool.keptIn_add left record ref hholds
    exact ⟨hadded, hsame.trans hget⟩

theorem addAll (hpools : relocation.Pools left right) (records : List Record) :
    relocation.Pools (left.addAll records).1
        (right.addAll (records.map (Record.remark relocation.mark))).1 ∧
      List.Forall₂ relocation.Refs (left.addAll records).2
        (right.addAll (records.map (Record.remark relocation.mark))).2 := by
  induction records generalizing left right with
  | nil => exact ⟨hpools, List.Forall₂.nil⟩
  | cons record rest ih =>
    obtain ⟨hrest, hrefs⟩ := ih (hpools.add record)
    exact ⟨hrest, List.Forall₂.cons hpools.refs_nextRef hrefs⟩

theorem modify (hpools : relocation.Pools left right) {ref ref' : RecordRef}
    (hrefs : relocation.Refs ref ref') {edit edit' : Record → Record}
    (hedit : ∀ record, edit' (record.remark relocation.mark) =
      (edit record).remark relocation.mark) :
    relocation.Pools (left.modify ref edit) (right.modify ref' edit') where
  get other := by
    obtain ⟨rfl, -⟩ := hrefs
    by_cases hholds : left.Holds ref
    · by_cases hother : ref = other
      · subst hother
        rw [Pool.get_modify_self _ hholds,
          Pool.get_modify_self _ ((hpools.holds_iff ref).mpr hholds), hpools.get, hedit]
      · rw [Pool.get_modify_of_ne _ hother,
          Pool.get_modify_of_ne _ (relocation.ref_injective.ne hother), hpools.get]
    · have hholds' : ¬ right.Holds (relocation.ref ref) := (hpools.holds_iff ref).not.mpr hholds
      rw [Pool.get_modify_of_not_holds _ hholds, Pool.get_modify_of_not_holds _ hholds',
        hpools.get]
  next offset := by
    rw [Pool.size_modify, Pool.size_modify]
    exact hpools.next offset
  kept other hloaded := by
    obtain ⟨hholds, hget⟩ := hpools.kept other hloaded
    refine ⟨Pool.holds_modify.mpr hholds, ?_⟩
    have hother : ref ≠ other := by
      rintro rfl
      exact hrefs.2 hloaded
    rw [Pool.get_modify_of_ne _ hother, hget]

end Pools

end Relocation

/-! ## Mods -/

open Agree

/-- The mod with its records at other places.  Its header keeps its marks: a run adds
nothing but names to it. -/
def Mod.relocate (relocation : Relocation) (mod : Mod) : Mod :=
  { mod with records := mod.records.map relocation.ref }

namespace Relocation

variable (relocation : Relocation)

/-- A mod without loaded records, and the mod with its records at other
places. -/
def Mods (mod mod' : Mod) : Prop :=
  mod' = mod.relocate relocation ∧ ∀ ref ∈ mod.records, relocation.Free ref

/-- Corresponding pools and mods, with supplies of marks that correspond. -/
structure Benches (left right : Workbench) : Prop where
  pools : relocation.Pools left.pool right.pool
  mods : relocation.Mods left.mod right.mod
  marks : ∀ offset, relocation.mark (left.marks + 1 + offset) = right.marks + 1 + offset

variable {relocation}

theorem mark_eq_zero_iff {mark : Nat} : relocation.mark mark = 0 ↔ mark = 0 := by
  constructor
  · intro heq
    exact relocation.mark_injective (heq.trans relocation.mark_zero.symm)
  · rintro rfl
    exact relocation.mark_zero

end Relocation

theorem Group.find?_relocate {relocation : Relocation} {left right : Pool}
    (hpools : relocation.Pools left right) (group : Group) (id : String) :
    (group.relocate relocation).find? right id =
      (group.find? left id).map relocation.ref := by
  rw [find?, records_relocate, List.find?_map, find?]
  congr 2
  funext ref
  simp only [Function.comp_apply, hpools.get, Record.id_remark]

namespace Mod

variable {relocation : Relocation} {left right : Pool}

@[simp]
theorem name_relocate (mod : Mod) : (mod.relocate relocation).name = mod.name := rfl

@[simp]
theorem deleted_relocate (mod : Mod) : (mod.relocate relocation).deleted = mod.deleted := rfl

@[simp]
theorem records_relocate (mod : Mod) :
    (mod.relocate relocation).records = mod.records.map relocation.ref := rfl

theorem find?_relocate (hpools : relocation.Pools left right) (mod : Mod) (id : String) :
    (mod.relocate relocation).find? right id = (mod.find? left id).map relocation.ref := by
  rw [find?, records_relocate, List.find?_map, find?]
  congr 2
  funext ref
  simp only [Function.comp_apply, hpools.get, Record.id_remark]

theorem nextIdNumber_relocate (hpools : relocation.Pools left right) (mod : Mod) :
    (mod.relocate relocation).nextIdNumber right = mod.nextIdNumber left := by
  simp only [nextIdNumber, records_relocate, deleted_relocate, List.map_map,
    Function.comp_def, hpools.get, Record.id_remark]

@[simp]
theorem dependencies_relocate (mod : Mod) :
    (mod.relocate relocation).dependencies = mod.dependencies := rfl

@[simp]
theorem references_relocate (mod : Mod) :
    (mod.relocate relocation).references = mod.references := rfl

end Mod

namespace FieldType

variable {relocation : Relocation}

@[simp]
theorem of?_remark {mark : Nat → Nat} (value : Plain) : of? (value.remark mark) = of? value := by
  cases value <;> rfl

theorem remark_of_convert {type : FieldType} {text : String} {value : Plain}
    (hvalue : type.convert text = .ok value) : value.remark relocation.mark = value := by
  cases type with
  | text =>
    cases hvalue
    rfl
  | bool =>
    unfold convert at hvalue
    dsimp only at hvalue
    split at hvalue
    · cases hvalue
      rfl
    · cases hvalue
  | int =>
    unfold convert at hvalue
    dsimp only at hvalue
    cases hnumber : integerOfText text with
    | error fault =>
      rw [hnumber] at hvalue
      cases hvalue
    | ok number =>
      rw [hnumber] at hvalue
      cases hvalue
      rfl
  | float =>
    unfold convert at hvalue
    dsimp only at hvalue
    split at hvalue
    next number hnumber =>
      cases hvalue
      exact congrArg Plain.float (floatOfText?_remark hnumber)
    next => cases hvalue
  | list => cases hvalue
  | mapping => cases hvalue

end FieldType

/-! ## Operations -/

namespace Work

variable {relocation : Relocation} {ref ref' : RecordRef}

theorem note_relocate (text text' : String) :
    Computations relocation.Benches Eq (note text) (note text') :=
  Computations.of_modify fun _ _ hbenches =>
    ⟨hbenches.pools, hbenches.mods, hbenches.marks⟩

theorem record_relocate (hrefs : relocation.Refs ref ref') :
    Computations relocation.Benches
      (fun record record' => record' = record.remark relocation.mark) (record ref)
      (record ref') := by
  refine Computations.of_get.of_bind fun bench bench' hbenches => Computations.of_pure ?_
  rw [hrefs.1, hbenches.pools.get]

theorem change_relocate (hrefs : relocation.Refs ref ref') {edit edit' : Record → Record}
    (hedit : ∀ record, edit' (record.remark relocation.mark) =
      (edit record).remark relocation.mark) :
    Computations relocation.Benches Eq (change ref edit) (change ref' edit') :=
  Computations.of_modify fun _ _ hbenches =>
    ⟨hbenches.pools.modify hrefs hedit, hbenches.mods, hbenches.marks⟩

theorem mark_of_ne {value : Plain} (hvalue : value ≠ .float (.nan 0)) :
    mark value = return value := by
  unfold mark
  split
  · exact absurd rfl hvalue
  · rfl

theorem remark_eq_unmarked_iff {value : Plain} :
    value.remark relocation.mark = .float (.nan 0) ↔ value = .float (.nan 0) := by
  cases value with
  | float number =>
    cases number <;> simp [Plain.remark, Binary64.remark, Relocation.mark_eq_zero_iff]
  | _ => simp [Plain.remark]

theorem mark_relocate (value : Plain) :
    Computations relocation.Benches
      (fun given given' => given' = given.remark relocation.mark) (mark value)
      (mark (value.remark relocation.mark)) := by
  by_cases hvalue : value = .float (.nan 0)
  · rw [remark_eq_unmarked_iff.mpr hvalue, hvalue]
    refine Computations.of_get.of_bind fun bench bench' hbenches => ?_
    have hmark : bench'.marks + 1 = relocation.mark (bench.marks + 1) :=
      (hbenches.marks 0).symm
    refine (Computations.of_set ⟨hbenches.pools, hbenches.mods, fun offset => ?_⟩).of_bind
      fun _ _ _ => Computations.of_pure ?_
    · rw [hmark]
      rfl
    · have hnext := hbenches.marks (1 + offset)
      rw [← Nat.add_assoc, ← Nat.add_assoc] at hnext
      exact hnext
  · rw [mark_of_ne hvalue, mark_of_ne (remark_eq_unmarked_iff.not.mpr hvalue)]
    exact Computations.of_pure rfl

theorem append_relocate (record : Record) :
    Computations relocation.Benches relocation.Refs (append record)
      (append (record.remark relocation.mark)) := by
  refine Computations.of_get.of_bind fun bench bench' hbenches => ?_
  have hrefs := hbenches.pools.refs_nextRef
  obtain ⟨hmod, hfree⟩ := hbenches.mods
  refine (Computations.of_set ⟨?_, ⟨?_, ?_⟩, hbenches.marks⟩).of_bind fun _ _ _ =>
    Computations.of_pure hrefs
  · rw [hmod]
    exact hbenches.pools.add { record with mod := bench.mod.name }
  · rw [hmod, hrefs.1]
    simp only [Mod.addRecord, Mod.relocate, List.map_append, List.map_singleton]
  · intro ref hmem
    obtain hold | hnew := List.mem_append.mp hmem
    · exact hfree ref hold
    · rw [List.mem_singleton.mp hnew]
      exact hrefs.2

theorem ownVersion_relocate (hrefs : relocation.Refs ref ref') :
    Computations relocation.Benches relocation.Refs (ownVersion ref) (ownVersion ref') := by
  unfold ownVersion
  refine Computations.of_get.of_bind fun bench bench' hbenches => ?_
  obtain ⟨hmod, hfree⟩ := hbenches.mods
  rw [hmod, hrefs.1, hbenches.pools.get]
  simp only [Mod.name_relocate, Mod.deleted_relocate, Record.id_remark, Record.kind_remark,
    Record.name_remark, Record.label_remark, Mod.find?_relocate hbenches.pools]
  split
  · exact Computations.of_throw_bind _ _ _
  · cases hfind : bench.mod.find? bench.pool (bench.pool.get ref).id with
    | some own =>
      exact Computations.of_pure ⟨rfl, hfree own (List.mem_of_find?_eq_some hfind)⟩
    | none =>
      exact (append_relocate _).of_bind fun own own' hown =>
        (note_relocate _ _).of_bind fun _ _ _ => Computations.of_pure hown

theorem write_relocate (hrefs : relocation.Refs ref ref') {edit edit' : Record → Record}
    (hedit : ∀ record, edit' (record.remark relocation.mark) =
      (edit record).remark relocation.mark) :
    Computations relocation.Benches Eq (write ref edit) (write ref' edit') := by
  unfold write
  refine (ownVersion_relocate hrefs).of_bind fun own own' hown => ?_
  refine (change_relocate hown hedit).of_bind fun _ _ _ => ?_
  have hsame : own' = ref' ↔ own = ref := by
    rw [hown.1, hrefs.1]
    exact relocation.ref_injective.eq_iff
  simp only [ne_eq, hsame]
  split
  · exact change_relocate hrefs hedit
  · exact Computations.of_pure rfl

/-! ### Fields -/

theorem writeField_relocate (hrefs : relocation.Refs ref ref') (name : String)
    {outcome : Except Fault Plain}
    (houtcome : ∀ value, outcome = .ok value → value.remark relocation.mark = value) :
    Computations relocation.Benches Eq
      (do
        let value ← mark (← outcome)
        write ref fun target => target.setField name value)
      (do
        let value ← mark (← outcome)
        write ref' fun target => target.setField name value) := by
  have hconverted : Outcomes (fun value value' => value' = value.remark relocation.mark)
      outcome outcome := by
    cases outcome with
    | error fault => exact .error fault
    | ok value => exact .ok (houtcome value rfl).symm
  refine (Computations.of_lift hconverted).of_bind fun value value' hvalue => ?_
  subst hvalue
  refine (mark_relocate value).of_bind fun given given' hgiven => ?_
  subst hgiven
  exact write_relocate hrefs fun record =>
    Record.setField_remark relocation.mark_injective record name given

theorem setField_relocate (hrefs : relocation.Refs ref ref') (name text : String) :
    Computations relocation.Benches Eq (setField ref name text) (setField ref' name text) := by
  unfold setField
  refine (record_relocate hrefs).of_bind fun record record' hrecord => ?_
  subst hrecord
  rw [Record.field?_remark relocation.mark_injective]
  cases record.field? name with
  | none => exact Computations.of_throw _
  | some current =>
    simp only [Option.map_some, FieldType.of?_remark]
    exact writeField_relocate hrefs name fun value => FieldType.remark_of_convert

theorem forceSetField_relocate (hrefs : relocation.Refs ref ref')
    (name text declared : String) :
    Computations relocation.Benches Eq (forceSetField ref name text declared)
      (forceSetField ref' name text declared) := by
  unfold forceSetField
  cases FieldType.declared? declared with
  | none => exact Computations.of_throw _
  | some type => exact writeField_relocate hrefs name fun value => FieldType.remark_of_convert

/-! ### Links -/

theorem addLink_relocate (hrefs : relocation.Refs ref ref') {source source' : RecordRef}
    (hsource : relocation.Refs source source') (category : String)
    (payload : Option (List Int)) (forced : Bool) :
    Computations relocation.Benches Eq (addLink ref source category payload forced)
      (addLink ref' source' category payload forced) := by
  unfold addLink
  refine (record_relocate hrefs).of_bind fun target target' htarget => ?_
  refine (record_relocate hsource).of_bind fun linked linked' hlinked => ?_
  subst htarget hlinked
  rw [Record.hasLink_remark, Record.id_remark]
  split
  · exact note_relocate _ _
  · exact write_relocate hrefs fun record => Record.setLink_remark record _

theorem relink_relocate (hrefs : relocation.Refs ref ref') (link : Link) :
    Computations relocation.Benches Eq (relink ref link) (relink ref' link) :=
  write_relocate hrefs fun record => Record.setLink_remark record link

/-! ### Records -/

theorem deleteRecord_relocate (hrefs : relocation.Refs ref ref') :
    Computations relocation.Benches Eq (deleteRecord ref) (deleteRecord ref') := by
  unfold deleteRecord
  refine Computations.of_get.of_bind fun bench bench' hbenches => ?_
  obtain ⟨hmod, hfree⟩ := hbenches.mods
  rw [hmod]
  have hremove : ∀ record : Record,
      (record.remark relocation.mark).setField Record.removedField (.bool true) =
        (record.setField Record.removedField (.bool true)).remark relocation.mark :=
    fun record => Record.setField_remark relocation.mark_injective record _ (.bool true)
  have hwrite : Computations relocation.Benches Eq
      (write ref fun record => record.setField Record.removedField (.bool true))
      (write ref' fun record => record.setField Record.removedField (.bool true)) :=
    write_relocate hrefs hremove
  have hchange : Computations relocation.Benches Eq
      (change ref fun record => record.setField Record.removedField (.bool true))
      (change ref' fun record => record.setField Record.removedField (.bool true)) :=
    change_relocate hrefs hremove
  have htarget : bench'.pool.get ref' = (bench.pool.get ref).remark relocation.mark := by
    rw [hrefs.1, hbenches.pools.get]
  simp only [htarget, Mod.name_relocate, Mod.deleted_relocate, Record.id_remark,
    Record.label_remark, Mod.find?_relocate hbenches.pools]
  split
  · exact Computations.of_pure rfl
  · cases hfind : bench.mod.find? bench.pool (bench.pool.get ref).id with
    | none => exact hwrite
    | some own =>
      simp only [Option.map_some, hbenches.pools.get, Record.isNew_remark]
      split
      · refine (Computations.of_modify fun first second hstates => ?_).of_bind fun _ _ _ =>
          hchange.of_bind fun _ _ _ => note_relocate _ _
        obtain ⟨hmods, hfrees⟩ := hstates.mods
        refine ⟨hstates.pools, ⟨?_, fun other hmem => ?_⟩, hstates.marks⟩
        · rw [hmods]
          simp only [Mod.relocate, List.map_erase relocation.ref_injective]
        · exact hfrees other (List.mem_of_mem_erase hmem)
      · exact hwrite

theorem appendClones_relocate (source : Record) (mod : String) (count number : Nat) :
    Computations relocation.Benches (List.Forall₂ relocation.Refs)
      (appendClones source mod count number)
      (appendClones (source.remark relocation.mark) mod count number) := by
  induction count generalizing number with
  | zero => exact Computations.of_pure List.Forall₂.nil
  | succ count ih =>
    have hclone : cloneOf (source.remark relocation.mark) number mod =
        (cloneOf source number mod).remark relocation.mark := by
      have hremove := Entries.remove_convert (Plain.remark relocation.mark)
        (Plain.beq_remark relocation.mark_injective) source.fields (.str Record.removedField)
      rw [Plain.remark_str] at hremove
      simp only [cloneOf, Record.remark, hremove]
    unfold appendClones
    rw [hclone]
    exact (append_relocate _).of_bind fun _ _ hfirst =>
      (ih (number + 1)).of_bind fun _ _ hrest =>
        Computations.of_pure (List.Forall₂.cons hfirst hrest)

theorem cloneRecord_relocate (hrefs : relocation.Refs ref ref') (count : Int) :
    Computations relocation.Benches (List.Forall₂ relocation.Refs) (cloneRecord ref count)
      (cloneRecord ref' count) := by
  unfold cloneRecord
  dsimp only
  split
  · exact Computations.of_throw_bind _ _ _
  · refine Computations.of_get.of_bind fun bench bench' hbenches => ?_
    obtain ⟨hmod, -⟩ := hbenches.mods
    rw [hmod, hrefs.1, hbenches.pools.get, Mod.nextIdNumber_relocate hbenches.pools]
    exact (appendClones_relocate _ _ _ _).of_bind fun _ _ hclones =>
      (note_relocate _ _).of_bind fun _ _ _ => Computations.of_pure hclones

/-! ### Header -/

theorem addDependencies_relocate (entries : List Plain) :
    Computations relocation.Benches Eq (addDependencies entries)
      (addDependencies entries) := by
  refine Computations.of_modify fun bench bench' hbenches => ?_
  obtain ⟨hmod, hfree⟩ := hbenches.mods
  refine ⟨hbenches.pools, ⟨?_, hfree⟩, hbenches.marks⟩
  rw [hmod]
  rfl

theorem addReferences_relocate (entries : List Plain) :
    Computations relocation.Benches Eq (addReferences entries)
      (addReferences entries) := by
  refine Computations.of_modify fun bench bench' hbenches => ?_
  obtain ⟨hmod, hfree⟩ := hbenches.mods
  refine ⟨hbenches.pools, ⟨?_, hfree⟩, hbenches.marks⟩
  rw [hmod]
  rfl

end Work

end Patchwork
