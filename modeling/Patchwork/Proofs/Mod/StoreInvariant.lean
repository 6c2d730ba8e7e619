import Patchwork.Proofs.Merge.LoadedLast
import Patchwork.Proofs.Mod.Headers
import Patchwork.Proofs.Mod.Relations
import Patchwork.Proofs.Text.Numerals

/-!
# What a store never loses

The calls to the store of a mod may come in any order and with any arguments, and
some of them fail.  Whatever they do, no two records of the mod share an
identifier, all of them carry its name, its header names no mod twice and never the
mod itself, and an identifier that has been deleted stays deleted: no record with it
is found, changed or made again.
-/

namespace Patchwork

/-! ## Numbers of clones -/

namespace Mod

/-- The number in front of the identifier of a clone is the one it was given. -/
theorem idNumber?_numbered (number : Nat) (name : String) :
    idNumber? (integerText number ++ "-" ++ name) = some number := by
  have hchars : (integerText number ++ "-" ++ name).toList =
      decimalDigits number ++ '-' :: name.toList := by
    simp [String.toList_append]
  have hdecimal : ∀ char ∈ decimalDigits number, Text.isDecimal char = true :=
    fun char hchar => Text.isDecimal_of_isDigit (isDigit_of_mem_decimalDigits hchar)
  have hhyphen : Text.isDecimal '-' = false := by decide
  have htake : (decimalDigits number ++ '-' :: name.toList).takeWhile Text.isDecimal =
      decimalDigits number := by
    rw [List.takeWhile_append_of_pos hdecimal]
    simp [hhyphen]
  have hdrop : (decimalDigits number ++ '-' :: name.toList).dropWhile Text.isDecimal =
      '-' :: name.toList := by
    rw [List.dropWhile_append_of_pos hdecimal]
    simp [hhyphen]
  have hsame : (decimalDigits number).map
      (fun digit => Text.digitChar ((Text.decimalValue? digit).getD 0)) =
        decimalDigits number := by
    refine (List.map_congr_left fun digit hdigit => ?_).trans (List.map_id _)
    exact Text.digitChar_decimalValue (isDigit_of_mem_decimalDigits hdigit)
  rw [idNumber?, hchars, htake, hdrop]
  cases hdigits : decimalDigits number with
  | nil => exact absurd hdigits (decimalDigits_ne_nil number)
  | cons first rest =>
    rw [hdigits] at hsame
    simp only [hsame]
    rw [← hdigits]
    exact congrArg some Nat.ofDigitChars_ten_toDigits

/-- Whether a mod has or had a record with an identifier. -/
def Knows (mod : Mod) (pool : Pool) (id : String) : Prop :=
  (∃ own ∈ mod.records, (pool.get own).id = id) ∨ id ∈ mod.deleted

theorem idNumber_lt_next {mod : Mod} {pool : Pool} {id : String} {number : Nat}
    (hknows : mod.Knows pool id) (hnumber : idNumber? id = some number) :
    number < mod.nextIdNumber pool := by
  have hbound : ∀ (ids : List String) (highest : Nat), highest ≤
        ids.foldl (fun highest id => max highest ((idNumber? id).getD 0)) highest ∧
      ∀ other ∈ ids, (idNumber? other).getD 0 ≤
        ids.foldl (fun highest id => max highest ((idNumber? id).getD 0)) highest := by
    intro ids
    induction ids with
    | nil => simp
    | cons first rest ih =>
      intro highest
      obtain ⟨hleast, hrest⟩ := ih (max highest ((idNumber? first).getD 0))
      refine ⟨Nat.le_trans (Nat.le_max_left _ _) hleast, fun other hother => ?_⟩
      rcases List.mem_cons.mp hother with rfl | hother
      · exact Nat.le_trans (Nat.le_max_right _ _) hleast
      · exact hrest other hother
  have hmem : id ∈ mod.records.map (fun record => (pool.get record).id) ++ mod.deleted := by
    rcases hknows with ⟨own, hown, rfl⟩ | hdeleted
    · exact List.mem_append_left _ (List.mem_map_of_mem hown)
    · exact List.mem_append_right _ hdeleted
  have hle := (hbound _ 0).2 id hmem
  rw [hnumber, Option.getD_some] at hle
  exact Nat.lt_succ_of_le hle

end Mod

/-! ## The invariant and what one step keeps -/

/-- A mod in good order. -/
structure SoundStore (pool : Pool) (mod : Mod) : Prop where
  held : ∀ own ∈ mod.records, pool.Holds own
  distinct : (mod.records.map fun own => (pool.get own).id).Nodup
  absent : ∀ own ∈ mod.records, (pool.get own).id ∉ mod.deleted
  named : ∀ own ∈ mod.records, (pool.get own).mod = mod.name
  dependencies : ProperHeader (.str mod.name) mod.dependencies
  references : ProperHeader (.str mod.name) mod.references

/-- What every call to the store does: a mod in good order stays in good order, and
deleted identifiers stay deleted, with every record that carries one left alone. -/
structure StoreStep (pool : Pool) (mod : Mod) (later : Pool) (patched : Mod) : Prop where
  name : patched.name = mod.name
  deleted : mod.deleted ⊆ patched.deleted
  held : ∀ ref, pool.Holds ref → later.Holds ref
  unchanged : ∀ ref, pool.Holds ref → (pool.get ref).id ∈ mod.deleted →
    later.get ref = pool.get ref
  sound : SoundStore pool mod → SoundStore later patched

namespace StoreStep

variable {pool : Pool} {mod : Mod}

theorem refl (pool : Pool) (mod : Mod) : StoreStep pool mod pool mod :=
  ⟨rfl, fun _ hid => hid, fun _ hheld => hheld, fun _ _ _ => rfl, id⟩

theorem trans {later last : Pool} {patched final : Mod}
    (hfirst : StoreStep pool mod later patched) (hsecond : StoreStep later patched last final) :
    StoreStep pool mod last final where
  name := hsecond.name.trans hfirst.name
  deleted := fun _ hid => hsecond.deleted (hfirst.deleted hid)
  held := fun ref hheld => hsecond.held ref (hfirst.held ref hheld)
  unchanged := by
    intro ref hheld hid
    have hget := hfirst.unchanged ref hheld hid
    refine (hsecond.unchanged ref (hfirst.held ref hheld) ?_).trans hget
    rw [hget]
    exact hfirst.deleted hid
  sound := fun hsound => hsecond.sound (hfirst.sound hsound)

theorem isPreorder : StoreRelation.IsPreorder StoreStep where
  refl := refl
  trans := trans

theorem of_keptIn {later : Pool} (hkept : pool.KeptIn later) :
    StoreStep pool mod later mod where
  name := rfl
  deleted := fun _ hid => hid
  held := fun ref hheld => (hkept ref hheld).1
  unchanged := fun ref hheld _ => (hkept ref hheld).2
  sound := by
    intro hsound
    have hsame : ∀ own ∈ mod.records, later.get own = pool.get own :=
      fun own hown => (hkept own (hsound.held own hown)).2
    have hids : mod.records.map (fun own => (later.get own).id) =
        mod.records.map fun own => (pool.get own).id :=
      List.map_congr_left fun own hown => congrArg Record.id (hsame own hown)
    exact {
      held := fun own hown => (hkept own (hsound.held own hown)).1
      distinct := hids ▸ hsound.distinct
      absent := fun own hown => hsame own hown ▸ hsound.absent own hown
      named := fun own hown => hsame own hown ▸ hsound.named own hown
      dependencies := hsound.dependencies
      references := hsound.references }

/-- A new record with the name of the mod and an identifier the mod does not know. -/
theorem addRecord {record : Record} (hname : record.mod = mod.name)
    (hnew : ¬ mod.Knows pool record.id) :
    StoreStep pool mod (pool.add record) (mod.addRecord pool.nextRef) := by
  have hkept := pool.keptIn_add record
  refine ⟨rfl, fun _ hid => hid, fun ref hheld => (hkept ref hheld).1,
    fun ref hheld _ => (hkept ref hheld).2, fun hsound => ?_⟩
  have hgrown : SoundStore (pool.add record) mod := (of_keptIn hkept).sound hsound
  have hadded : (pool.add record).get pool.nextRef = record := pool.get_add_nextRef record
  have hcases : ∀ {statement : RecordRef → Prop}, (∀ own ∈ mod.records, statement own) →
      statement pool.nextRef → ∀ own ∈ (mod.addRecord pool.nextRef).records, statement own := by
    intro statement hold hlast own hown
    rcases List.mem_append.mp hown with hown | hown
    · exact hold own hown
    · exact List.mem_singleton.mp hown ▸ hlast
  exact {
    held := hcases hgrown.held (pool.holds_add_nextRef record)
    distinct := by
      rw [Mod.addRecord, List.map_append, List.map_singleton, hadded]
      refine List.nodup_append.mpr ⟨hgrown.distinct, List.nodup_singleton _, ?_⟩
      intro first hfirst second hsecond
      rw [List.mem_singleton.mp hsecond]
      rintro rfl
      obtain ⟨own, hown, hid⟩ := List.mem_map.mp hfirst
      rw [(hkept own (hsound.held own hown)).2] at hid
      exact hnew (Or.inl ⟨own, hown, hid⟩)
    absent := hcases hgrown.absent (hadded.symm ▸ fun hdeleted => hnew (Or.inr hdeleted))
    named := hcases hgrown.named (hadded.symm ▸ hname)
    dependencies := hsound.dependencies
    references := hsound.references }

/-- A change to a record whose identifier is not deleted. -/
theorem modify {ref : RecordRef} {edit : Record → Record}
    (hid : ∀ record, (edit record).id = record.id)
    (hmod : ∀ record, (edit record).mod = record.mod)
    (hdeleted : (pool.get ref).id ∉ mod.deleted) :
    StoreStep pool mod (pool.modify ref edit) mod := by
  have hids : ∀ other, ((pool.modify ref edit).get other).id = (pool.get other).id :=
    Pool.read_modify Record.id hid pool ref
  have hmods : ∀ other, ((pool.modify ref edit).get other).mod = (pool.get other).mod :=
    Pool.read_modify Record.mod hmod pool ref
  refine ⟨rfl, fun _ hid => hid, fun other hheld => Pool.holds_modify.mpr hheld, ?_, ?_⟩
  · intro other hheld hother
    refine pool.get_modify_of_ne edit fun hsame => hdeleted ?_
    rw [hsame]
    exact hother
  · intro hsound
    exact {
      held := fun own hown => Pool.holds_modify.mpr (hsound.held own hown)
      distinct := by simpa only [hids] using hsound.distinct
      absent := fun own hown => by simpa only [hids] using hsound.absent own hown
      named := fun own hown => by simpa only [hmods] using hsound.named own hown
      dependencies := hsound.dependencies
      references := hsound.references }

/-- A record taken out of the mod, with its identifier among the deleted ones. -/
theorem drop {own : RecordRef} (hown : own ∈ mod.records) :
    StoreStep pool mod pool { mod with
      records := mod.records.erase own
      deleted := mod.deleted ++ [(pool.get own).id] } where
  name := rfl
  deleted := List.subset_append_left _ _
  held := fun _ hheld => hheld
  unchanged := fun _ _ _ => rfl
  sound := by
    intro hsound
    have hsubset : ∀ other ∈ mod.records.erase own, other ∈ mod.records :=
      fun _ hother => List.mem_of_mem_erase hother
    have hnodup : mod.records.Nodup := List.Nodup.of_map _ hsound.distinct
    have hothers : ∀ other ∈ mod.records.erase own, (pool.get other).id ≠ (pool.get own).id := by
      intro other hother hid
      have hsame := List.inj_on_of_nodup_map hsound.distinct (hsubset other hother) hown hid
      exact (List.Nodup.mem_erase_iff hnodup).mp hother |>.1 hsame
    exact {
      held := fun other hother => hsound.held other (hsubset other hother)
      distinct := hsound.distinct.sublist (List.erase_sublist.map _)
      absent := by
        intro other hother hdeleted
        rcases List.mem_append.mp hdeleted with hdeleted | hdeleted
        · exact hsound.absent other (hsubset other hother) hdeleted
        · exact hothers other hother (List.mem_singleton.mp hdeleted)
      named := fun other hother => hsound.named other (hsubset other hother)
      dependencies := hsound.dependencies
      references := hsound.references }

theorem addDependencies (entries : List Plain) :
    StoreStep pool mod pool (mod.addDependencies entries) where
  name := rfl
  deleted := fun _ hid => hid
  held := fun _ hheld => hheld
  unchanged := fun _ _ _ => rfl
  sound := fun hsound =>
    { hsound with dependencies := hsound.dependencies.foldl entries }

theorem addReferences (entries : List Plain) :
    StoreStep pool mod pool (mod.addReferences entries) where
  name := rfl
  deleted := fun _ hid => hid
  held := fun _ hheld => hheld
  unchanged := fun _ _ _ => rfl
  sound := fun hsound =>
    { hsound with references := hsound.references.foldl entries }

end StoreStep

/-! ## Operations -/

namespace Work

variable {before after : Workbench} {ref : RecordRef}

/-- An operation that gives a result is a step of the store. -/
def Steps {Result : Type} (work : Work Result) : Prop :=
  ∀ before result after, work.Yields before result after →
    StoreStep before.pool before.mod after.pool after.mod

theorem storeStep_ownVersion {own : RecordRef}
    (hyields : (ownVersion ref).Yields before own after) :
    StoreStep before.pool before.mod after.pool after.mod ∧
      (after.pool.get own).id = (before.pool.get ref).id ∧
      (own ≠ ref → (after.pool.get ref).id = (before.pool.get ref).id) ∧
      after.mod.deleted = before.mod.deleted := by
  obtain ⟨hdeleted, ⟨hfind, rfl⟩ | ⟨hnone, rfl, hpool, hmod⟩⟩ := yields_ownVersion hyields
  · exact ⟨StoreStep.refl _ _, (Mod.mem_of_find? hfind).2, fun _ => rfl, rfl⟩
  · rw [hpool, hmod]
    refine ⟨StoreStep.addRecord rfl ?_, by rw [Pool.get_add_nextRef], fun hother => ?_, rfl⟩
    · rintro (⟨own, hown, hid⟩ | hknown)
      · exact Mod.find?_eq_none.mp hnone own hown hid
      · exact hdeleted hknown
    · rw [Pool.get_add_of_ne _ hother.symm]

theorem steps_write {edit : Record → Record} (hid : ∀ record, (edit record).id = record.id)
    (hmod : ∀ record, (edit record).mod = record.mod) : (write ref edit).Steps := by
  intro before result after hyields
  obtain ⟨own, between, hown, hmods, hpool⟩ := yields_write hyields
  obtain ⟨hstep, hownId, hrefId, hsame⟩ := storeStep_ownVersion hown
  have hdeleted : (before.pool.get ref).id ∉ before.mod.deleted := (yields_ownVersion hown).1
  have hownChanged : StoreStep between.pool between.mod (between.pool.modify own edit)
      between.mod := StoreStep.modify hid hmod (by rwa [hownId, hsame])
  rw [hmods, hpool]
  split
  · exact hstep.trans hownChanged
  · next hother =>
    refine (hstep.trans hownChanged).trans (StoreStep.modify hid hmod ?_)
    rw [Pool.read_modify Record.id hid, hrefId hother, hsame]
    exact hdeleted

/-- The edits of a write keep the identifier and the mod of a record. -/
theorem writes_step (ref : RecordRef) : WritesRelate StoreStep ref where
  field _ _ := steps_write (fun _ => rfl) fun _ => rfl
  link _ := steps_write (fun _ => rfl) fun _ => rfl

theorem steps_deleteRecord (ref : RecordRef) : (deleteRecord ref).Steps := by
  intro before result after hyields
  obtain ⟨-, rfl⟩ | ⟨hdeleted, ⟨-, hwrite⟩ | ⟨own, hfind, -, hpool, hmod⟩⟩ :=
    yields_deleteRecord hyields
  · exact StoreStep.refl _ _
  · exact (writes_step ref).field _ _ _ _ _ hwrite
  · obtain ⟨hown, hid⟩ := Mod.mem_of_find? hfind
    have hremoved : ∀ record : Record,
        (record.setField Record.removedField (.bool true)).id = record.id := fun _ => rfl
    have hdropped :=
      (StoreStep.modify hremoved (fun _ => rfl) hdeleted).trans (StoreStep.drop hown)
    rw [Pool.read_modify Record.id hremoved, hid] at hdropped
    rwa [hpool, hmod]

/-- Clones are numbered from beyond every identifier the mod has or had. -/
theorem storeStep_appendClones {source : Record} {name : String} {count number : Nat}
    {clones : List RecordRef} (hname : before.mod.name = name)
    (hbeyond : ∀ id known, before.mod.Knows before.pool id → Mod.idNumber? id = some known →
      known < number)
    (hyields : (appendClones source name count number).Yields before clones after) :
    StoreStep before.pool before.mod after.pool after.mod := by
  induction count generalizing number before clones with
  | zero =>
    obtain ⟨-, rfl⟩ := yields_pure.mp hyields
    exact StoreStep.refl _ _
  | succ count ih =>
    rw [appendClones] at hyields
    obtain ⟨clone, between, happend, hrest⟩ := yields_bind.mp hyields
    obtain ⟨rfl, hbetween⟩ := yields_append.mp happend
    obtain ⟨others, last, hothers, hresult⟩ := yields_bind.mp hrest
    obtain ⟨-, rfl⟩ := yields_pure.mp hresult
    have hpool : between.pool =
        before.pool.add { cloneOf source number name with mod := before.mod.name } :=
      hbetween ▸ rfl
    have hmod : between.mod = before.mod.addRecord before.pool.nextRef := hbetween ▸ rfl
    have hnumber : Mod.idNumber? (cloneOf source number name).id = some number :=
      Mod.idNumber?_numbered number name
    have hadded : StoreStep before.pool before.mod between.pool between.mod := by
      rw [hpool, hmod]
      exact StoreStep.addRecord rfl fun hknown => Nat.lt_irrefl _ (hbeyond _ _ hknown hnumber)
    refine hadded.trans (ih (hadded.name.trans hname) (fun id known hknows hknown => ?_) hothers)
    -- Whatever is known now was known before, or is the clone that was just made.
    have hcases : before.mod.Knows before.pool id ∨ id = (cloneOf source number name).id := by
      rw [hpool, hmod] at hknows
      rcases hknows with ⟨own, hown, hid⟩ | hdeleted
      · by_cases hlast : own = before.pool.nextRef
        · rw [hlast, Pool.get_add_nextRef] at hid
          exact Or.inr hid.symm
        · rw [Pool.get_add_of_ne _ hlast] at hid
          rcases List.mem_append.mp hown with hown | hown
          · exact Or.inl (Or.inl ⟨own, hown, hid⟩)
          · exact absurd (List.mem_singleton.mp hown) hlast
      · exact Or.inl (Or.inr hdeleted)
    rcases hcases with hbefore | rfl
    · exact Nat.lt_succ_of_lt (hbeyond id known hbefore hknown)
    · rw [hnumber] at hknown
      cases hknown
      exact Nat.lt_succ_self number

theorem steps_cloneRecord (ref : RecordRef) (count : Int) : (cloneRecord ref count).Steps := by
  intro before result after hyields
  obtain ⟨text, between, hclones, rfl⟩ := yields_cloneRecord hyields
  have hstep : StoreStep before.pool before.mod between.pool between.mod :=
    storeStep_appendClones rfl
      (fun id known hknows hknown => Mod.idNumber_lt_next hknows hknown) hclones
  exact hstep

theorem steps_addDependencies (entries : List Plain) : (addDependencies entries).Steps := by
  intro before result after hyields
  obtain rfl := yields_modify.mp hyields
  exact StoreStep.addDependencies entries

theorem steps_addReferences (entries : List Plain) : (addReferences entries).Steps := by
  intro before result after hyields
  obtain rfl := yields_modify.mp hyields
  exact StoreStep.addReferences entries

end Work

end Patchwork
