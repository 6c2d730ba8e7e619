import Patchwork.Proofs.Horizon.Within
import Patchwork.Proofs.Mod.Relations

/-!
# The store stays within a horizon

The pool and the supply of marks only grow.  As long as they do not grow beyond a horizon,
the records stay within it, whatever the store does.
-/

namespace Patchwork

/-- All records of a pool are without marks beyond a horizon. -/
abbrev Pool.Within (horizon : Horizon) (pool : Pool) : Prop :=
  pool.All (Record.Within horizon)

namespace Horizon

/-- The records and the marks do not go beyond a horizon. -/
structure Covers (horizon : Horizon) (pool : Pool) (marks : Nat) : Prop where
  places : pool.records.size ≤ horizon.places
  marks : marks ≤ horizon.marks

/-- The pool and the marks have grown, and the records are still within a horizon unless
the pool and the marks have grown beyond it. -/
structure Keeps (horizon : Horizon) (pool : Pool) (marks : Nat) (later : Pool)
    (laterMarks : Nat) : Prop where
  places : pool.records.size ≤ later.records.size
  marks : marks ≤ laterMarks
  within : pool.Within horizon → horizon.Covers later laterMarks → later.Within horizon

variable {horizon : Horizon} {pool later : Pool} {marks laterMarks : Nat}

theorem Keeps.covers (hkeeps : horizon.Keeps pool marks later laterMarks)
    (hcovers : horizon.Covers later laterMarks) : horizon.Covers pool marks :=
  ⟨Nat.le_trans hkeeps.places hcovers.places, Nat.le_trans hkeeps.marks hcovers.marks⟩

theorem Keeps.refl (pool : Pool) (marks : Nat) : horizon.Keeps pool marks pool marks :=
  ⟨Nat.le_refl _, Nat.le_refl _, fun hpool _ => hpool⟩

theorem Keeps.trans {last : Pool} {lastMarks : Nat}
    (hfirst : horizon.Keeps pool marks later laterMarks)
    (hsecond : horizon.Keeps later laterMarks last lastMarks) :
    horizon.Keeps pool marks last lastMarks where
  places := Nat.le_trans hfirst.places hsecond.places
  marks := Nat.le_trans hfirst.marks hsecond.marks
  within hpool hcovers :=
    hsecond.within (hfirst.within hpool (hsecond.covers hcovers)) hcovers

/-- Marks have been given, and nothing else has happened. -/
theorem Keeps.of_marks (pool : Pool) (hmarks : marks ≤ laterMarks) :
    horizon.Keeps pool marks pool laterMarks :=
  ⟨Nat.le_refl _, hmarks, fun hpool _ => hpool⟩

/-- A place that is not in use is moved to one that is not. -/
theorem not_holds_ref {ref : RecordRef} (hplaces : pool.records.size ≤ horizon.places)
    (hbeyond : ¬ pool.Holds ref) : ¬ pool.Holds (horizon.relocation.ref ref) := by
  intro hheld
  have hfixed := horizon.ref_eq _ (Nat.lt_of_lt_of_le hheld hplaces)
  rw [horizon.relocation.ref_injective hfixed] at hheld
  exact hbeyond hheld

theorem get_ref (hplaces : pool.records.size ≤ horizon.places) (ref : RecordRef) :
    pool.get (horizon.relocation.ref ref) = pool.get ref := by
  by_cases hheld : pool.Holds ref
  · rw [horizon.ref_eq ref (Nat.lt_of_lt_of_le hheld hplaces)]
  · rw [Pool.get_of_not_holds hheld, Pool.get_of_not_holds (not_holds_ref hplaces hheld)]

theorem Covers.labels (hcovers : horizon.Covers pool marks) :
    Labels.Within horizon pool.label := by
  intro ref
  rw [Pool.label, Pool.label, get_ref hcovers.places]

theorem Covers.ref (hcovers : horizon.Covers pool marks) {ref : RecordRef}
    (hheld : pool.Holds ref) : ref.Within horizon :=
  horizon.ref_eq ref (Nat.lt_of_lt_of_le hheld hcovers.places)

end Horizon

variable {horizon : Horizon} {Result Other : Type}

namespace Work

/-- An operation that stays within a horizon. -/
def Stays (horizon : Horizon) (gives : Result → Prop) (work : Work Result) : Prop :=
  ∀ before result after, work.Yields before result after →
    horizon.Keeps before.pool before.marks after.pool after.marks ∧
      (before.pool.Within horizon → horizon.Covers after.pool after.marks → gives result)

variable {gives : Result → Prop} {givesNext : Other → Prop} {work : Work Result}

theorem Stays.mono (hwork : work.Stays horizon gives) {more : Result → Prop}
    (hmore : ∀ result, gives result → more result) : work.Stays horizon more := by
  intro before result after hyields
  obtain ⟨hkeeps, hgives⟩ := hwork before result after hyields
  exact ⟨hkeeps, fun hpool hcovers => hmore result (hgives hpool hcovers)⟩

theorem stays_pure {result : Result} (hresult : gives result) :
    (pure result : Work Result).Stays horizon gives := by
  intro before given after hyields
  obtain ⟨rfl, rfl⟩ := yields_pure.mp hyields
  exact ⟨Horizon.Keeps.refl _ _, fun _ _ => hresult⟩

theorem stays_throw (fault : Fault) : (throw fault : Work Result).Stays horizon gives :=
  fun _ _ _ hyields => absurd hyields not_yields_throw

theorem stays_throw_bind (fault : Fault) (next : Result → Work Other) :
    (throw fault >>= next).Stays horizon givesNext := by
  intro before last after hyields
  obtain ⟨_, _, hthrown, -⟩ := yields_bind.mp hyields
  exact absurd hthrown not_yields_throw

/-- What comes second may rely on what the first operation has given. -/
theorem Stays.bind {next : Result → Work Other} (hwork : work.Stays horizon gives)
    (hnext : ∀ result, (next result).Stays horizon fun last => gives result → givesNext last) :
    (work >>= next).Stays horizon givesNext := by
  intro before last after hyields
  obtain ⟨result, between, hfirst, hrest⟩ := yields_bind.mp hyields
  obtain ⟨hkeeps, hgives⟩ := hwork before result between hfirst
  obtain ⟨hkeepsNext, hgivesNext⟩ := hnext result between last after hrest
  refine ⟨hkeeps.trans hkeepsNext, fun hpool hcovers => ?_⟩
  have hbetween := hkeepsNext.covers hcovers
  exact hgivesNext (hkeeps.within hpool hbetween) hcovers (hgives hpool hbetween)

theorem Stays.andThen {next : Result → Work Other} (hwork : work.Stays horizon gives)
    (hnext : ∀ result, (next result).Stays horizon givesNext) :
    (work >>= next).Stays horizon givesNext :=
  hwork.bind fun result => (hnext result).mono fun _ hlast _ => hlast

theorem stays_get :
    (get : Work Workbench).Stays horizon fun bench => bench.pool.Within horizon := by
  intro before result after hyields
  obtain ⟨rfl, rfl⟩ := yields_get.mp hyields
  exact ⟨Horizon.Keeps.refl _ _, fun hpool _ => hpool⟩

theorem stays_modify {change : Workbench → Workbench}
    (hchange : ∀ bench, horizon.Keeps bench.pool bench.marks (change bench).pool
      (change bench).marks) :
    (modify change : Work PUnit).Stays horizon fun _ => True := by
  intro before result after hyields
  obtain rfl := yields_modify.mp hyields
  exact ⟨hchange before, fun _ _ => trivial⟩

theorem stays_note (text : String) : (note text).Stays horizon fun _ => True :=
  stays_modify fun _ => Horizon.Keeps.refl _ _

theorem stays_record (ref : RecordRef) :
    (record ref).Stays horizon (Record.Within horizon) :=
  stays_get.bind fun _ => stays_pure fun hpool => hpool ref

theorem stays_change (ref : RecordRef) {edit : Record → Record}
    (hedit : ∀ record : Record, record.Within horizon → (edit record).Within horizon) :
    (change ref edit).Stays horizon fun _ => True :=
  stays_modify fun bench =>
    ⟨Nat.le_of_eq (bench.pool.size_modify ref edit).symm, Nat.le_refl _,
      fun hpool _ => hpool.modify ref hedit⟩

theorem stays_mark {value : Plain} (hvalue : value.Within horizon) :
    (mark value).Stays horizon (Plain.Within horizon) := by
  unfold mark
  split
  · intro before result after hyields
    simp only [yields_bind, yields_get, yields_set, yields_pure] at hyields
    obtain ⟨bench, _, ⟨rfl, rfl⟩, _, _, rfl, rfl, rfl⟩ := hyields
    refine ⟨Horizon.Keeps.of_marks _ (Nat.le_succ _), fun _ hcovers => ?_⟩
    exact congrArg (fun mark => Plain.float (.nan mark)) (horizon.mark_eq _ hcovers.marks)
  · exact stays_pure hvalue

theorem stays_append {record : Record} (hrecord : record.Within horizon) :
    (append record).Stays horizon fun ref => ref.Within horizon := by
  intro before ref after hyields
  obtain ⟨rfl, rfl⟩ := yields_append.mp hyields
  have hnamed : Record.Within horizon { record with mod := before.mod.name } :=
    hrecord.of_fields rfl
  refine ⟨⟨?_, Nat.le_refl _, fun hpool _ => hpool.add hnamed⟩, fun _ hcovers => ?_⟩
  · exact Nat.le.intro (before.pool.size_add _).symm
  · exact hcovers.ref (before.pool.holds_add_nextRef _)

theorem stays_ownVersion (ref : RecordRef) :
    (ownVersion ref).Stays horizon fun _ => True := by
  unfold ownVersion
  refine stays_get.andThen fun bench => ?_
  have hempty : Record.Within horizon {
      id := (bench.pool.get ref).id
      kind := (bench.pool.get ref).kind
      name := (bench.pool.get ref).name } := rfl
  dsimp only
  split
  · exact stays_throw_bind _ _
  · split
    · exact stays_pure trivial
    · exact (stays_append hempty).andThen fun _ =>
        (stays_note _).andThen fun _ => stays_pure trivial

theorem stays_write (ref : RecordRef) {edit : Record → Record}
    (hedit : ∀ record : Record, record.Within horizon → (edit record).Within horizon) :
    (write ref edit).Stays horizon fun _ => True := by
  refine (stays_ownVersion ref).andThen fun own => (stays_change own hedit).andThen fun _ => ?_
  split
  · exact stays_change ref hedit
  · exact stays_pure trivial

/-- Growing can be shown with a horizon that has nothing beyond it. -/
theorem stays_of_unmoved {gives : Result → Prop} {work : Work Result}
    (hgrown : work.Stays Horizon.unmoved fun _ => True)
    (hwork : ∀ before result after, work.Yields before result after →
      before.pool.Within horizon → horizon.Covers after.pool after.marks →
        after.pool.Within horizon ∧ gives result) :
    work.Stays horizon gives := by
  intro before result after hyields
  obtain ⟨hkeeps, -⟩ := hgrown before result after hyields
  refine ⟨⟨hkeeps.places, hkeeps.marks, fun hpool hcovers => ?_⟩, fun hpool hcovers => ?_⟩
  · exact (hwork before result after hyields hpool hcovers).1
  · exact (hwork before result after hyields hpool hcovers).2

/-- A value that is marked, if it needs a mark, and written into a field. -/
theorem stays_writeMarked (ref : RecordRef) (name : String) {value : Plain}
    (hvalue : value.Within horizon) :
    (do
      let marked ← mark value
      write ref fun target => target.setField name marked : Work Unit).Stays horizon
        fun _ => True := by
  have hwrite : ∀ {horizon : Horizon} {marked : Plain}, marked.Within horizon →
      (write ref fun target => target.setField name marked).Stays horizon fun _ => True :=
    fun hmarked => stays_write ref fun _ hrecord => hrecord.setField name hmarked
  have hgrown : (do
      let marked ← mark value
      write ref fun target => target.setField name marked : Work Unit).Stays Horizon.unmoved
        fun _ => True :=
    (stays_mark value.within_unmoved).andThen fun marked => hwrite marked.within_unmoved
  refine stays_of_unmoved hgrown fun before result after hyields hpool hcovers => ?_
  obtain ⟨marked, between, hmark, hlast⟩ := yields_bind.mp hyields
  obtain ⟨hkeeps, hmarked⟩ := stays_mark hvalue before marked between hmark
  obtain ⟨hgrows, -⟩ := hwrite marked.within_unmoved between result after hlast
  have hbetween : horizon.Covers between.pool between.marks :=
    ⟨Nat.le_trans hgrows.places hcovers.places, Nat.le_trans hgrows.marks hcovers.marks⟩
  obtain ⟨hlater, -⟩ := hwrite (hmarked hpool hbetween) between result after hlast
  exact ⟨hlater.within (hkeeps.within hpool hbetween) hcovers, trivial⟩

theorem stays_of_convert (ref : RecordRef) (name : String) (type : FieldType) (text : String) :
    (do
      let marked ← mark (← type.convert text)
      write ref fun target => target.setField name marked : Work Unit).Stays horizon
        fun _ => True := by
  intro before result after hyields
  obtain ⟨given, _, hgiven, hrest⟩ := yields_bind.mp hyields
  obtain ⟨hconvert, rfl⟩ := yields_lift hgiven
  exact stays_writeMarked ref name (FieldType.remark_of_convert hconvert) _ _ _ hrest

theorem stays_setField (ref : RecordRef) (name text : String) :
    (setField ref name text).Stays horizon fun _ => True := by
  refine (stays_record ref).andThen fun record => ?_
  split
  · exact stays_throw _
  · exact stays_of_convert ref name _ text

theorem stays_forceSetField (ref : RecordRef) (name text declared : String) :
    (forceSetField ref name text declared).Stays horizon fun _ => True := by
  unfold forceSetField
  split
  · exact stays_throw _
  · exact stays_of_convert ref name _ text

theorem stays_relink (ref : RecordRef) (link : Link) :
    (relink ref link).Stays horizon fun _ => True :=
  stays_write ref fun _ hrecord => hrecord.setLink link

theorem stays_addLink (ref source : RecordRef) (category : String) (payload : Option (List Int))
    (forced : Bool) : (addLink ref source category payload forced).Stays horizon fun _ => True := by
  refine (stays_record ref).andThen fun target => (stays_record source).andThen fun linked => ?_
  split
  · exact stays_note _
  · exact stays_write ref fun _ hrecord => hrecord.setLink _

theorem stays_deleteRecord (ref : RecordRef) :
    (deleteRecord ref).Stays horizon fun _ => True := by
  have hremove : ∀ record : Record, record.Within horizon →
      (record.setField Record.removedField (.bool true)).Within horizon :=
    fun _ hrecord => hrecord.setField _ rfl
  refine stays_get.andThen fun bench => ?_
  dsimp only
  split
  · exact stays_pure trivial
  · split
    · split
      · refine (stays_modify fun _ => ?_).andThen fun _ => (stays_change ref hremove).andThen
          fun _ => stays_note _
        exact Horizon.Keeps.refl _ _
      · exact stays_write ref hremove
    · exact stays_write ref hremove

theorem stays_appendClones {source : Record} (hsource : source.Within horizon) (mod : String)
    (count number : Nat) :
    (appendClones source mod count number).Stays horizon fun clones =>
      ∀ ref ∈ clones, ref.Within horizon := by
  induction count generalizing number with
  | zero => exact stays_pure fun _ href => nomatch href
  | succ count ih =>
    refine (stays_append (hsource.cloneOf number mod)).bind fun clone =>
      (ih (number + 1)).bind fun clones => stays_pure fun hclones hclone => ?_
    exact List.forall_mem_cons.mpr ⟨hclone, hclones⟩

theorem stays_cloneRecord (ref : RecordRef) (count : Int) :
    (cloneRecord ref count).Stays horizon fun clones => ∀ clone ∈ clones, clone.Within horizon := by
  have hclones : ∀ {horizon : Horizon} {before : Workbench} {clones : List RecordRef}
      {after : Workbench}, (cloneRecord ref count).Yields before clones after →
      (before.pool.get ref).Within horizon →
        horizon.Keeps before.pool before.marks after.pool after.marks ∧
          (before.pool.Within horizon → horizon.Covers after.pool after.marks →
            ∀ clone ∈ clones, clone.Within horizon) := by
    intro horizon before clones after hyields hsource
    obtain ⟨text, between, hclones, rfl⟩ := yields_cloneRecord hyields
    exact stays_appendClones hsource _ _ _ before clones between hclones
  refine stays_of_unmoved (fun before clones after hyields => ?_)
    fun before clones after hyields hpool hcovers => ?_
  · exact ⟨(hclones hyields (Record.within_unmoved _)).1, fun _ _ => trivial⟩
  · obtain ⟨hkeeps, hgives⟩ := hclones hyields (hpool ref)
    exact ⟨hkeeps.within hpool hcovers, hgives hpool hcovers⟩

theorem stays_addDependencies (entries : List Plain) :
    (addDependencies entries).Stays horizon fun _ => True :=
  stays_modify fun _ => Horizon.Keeps.refl _ _

theorem stays_addReferences (entries : List Plain) :
    (addReferences entries).Stays horizon fun _ => True :=
  stays_modify fun _ => Horizon.Keeps.refl _ _

end Work

end Patchwork
