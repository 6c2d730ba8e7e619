import Patchwork.Proofs.Mod.StoreRuns

/-!
# Writes that fail

An operation on a mod that fails keeps what it has done until then.  The writes of a mod
read, check and convert first, and change something only when nothing can fail any more.
So a write that fails leaves the mod and all records as they were; in particular no
override is left behind.
-/

namespace Patchwork

namespace Work

variable {Result Other : Type} {work : Work Result} {next : Result → Work Other}

theorem SameRecords.refl (bench : Workbench) : SameRecords bench bench :=
  ⟨rfl, rfl⟩

theorem SameRecords.trans {before between after : Workbench}
    (hfirst : SameRecords before between) (hsecond : SameRecords between after) :
    SameRecords before after :=
  ⟨hsecond.pool.trans hfirst.pool, hsecond.mod.trans hfirst.mod⟩

/-! ## Reading, then what may fail, then what cannot -/

/-- An operation leaves the mod and the records as they are, whether it gives a result or
fails. -/
def OnlyReads (work : Work Result) : Prop :=
  ∀ before, SameRecords before (work.run before).2

/-- An operation never fails. -/
def Succeeds (work : Work Result) : Prop :=
  ∀ before, ∃ result, (work.run before).1 = .ok result

/-- An operation that fails leaves the mod and the records as they were. -/
def Traceless (work : Work Result) : Prop :=
  ∀ before fault, (work.run before).1 = .error fault → SameRecords before (work.run before).2

theorem OnlyReads.traceless (hreads : work.OnlyReads) : work.Traceless :=
  fun before _ _ => hreads before

theorem Succeeds.traceless (hsucceeds : work.Succeeds) : work.Traceless := by
  intro before fault hfails
  obtain ⟨result, hresult⟩ := hsucceeds before
  rw [hresult] at hfails
  cases hfails

/-- What comes after a step that only reads may fail, as long as it leaves no trace. -/
theorem OnlyReads.bind_traceless (hreads : work.OnlyReads)
    (hnext : ∀ result, (next result).Traceless) : (work >>= next).Traceless := by
  intro before fault hfails
  have hbetween := hreads before
  rw [Agree.Computations.run_bind] at hfails ⊢
  cases hran : work.run before with
  | mk outcome between =>
    rw [hran] at hfails hbetween
    cases outcome with
    | error _ => exact hbetween
    | ok result => exact hbetween.trans (hnext result between fault hfails)

/-- After a step that may have changed something nothing fails. -/
theorem Traceless.bind_succeeds (htraceless : work.Traceless)
    (hnext : ∀ result, (next result).Succeeds) : (work >>= next).Traceless := by
  intro before fault hfails
  have hbetween := htraceless before
  rw [Agree.Computations.run_bind] at hfails ⊢
  cases hran : work.run before with
  | mk outcome between =>
    rw [hran] at hfails hbetween
    cases outcome with
    | error other => exact hbetween other rfl
    | ok result =>
      obtain ⟨given, hgiven⟩ := hnext result between
      exact absurd (hgiven.symm.trans hfails) nofun

/-- A check that comes before everything else. -/
theorem traceless_guard {condition : Prop} [Decidable condition] (fault : Fault)
    {rest : PUnit → Work Result} (hrest : (rest ⟨⟩).Traceless) :
    (if condition then throw fault >>= rest else rest ⟨⟩).Traceless := by
  split
  · exact OnlyReads.traceless fun before => SameRecords.refl before
  · exact hrest

theorem Succeeds.bind (hwork : work.Succeeds) (hnext : ∀ result, (next result).Succeeds) :
    (work >>= next).Succeeds := by
  intro before
  obtain ⟨result, hresult⟩ := hwork before
  rw [Agree.Computations.run_bind]
  cases hran : work.run before with
  | mk outcome between =>
    rw [hran] at hresult
    cases hresult
    exact hnext result between

/-! ## Steps -/

theorem onlyReads_throw (fault : Fault) : (throw fault : Work Result).OnlyReads :=
  fun before => SameRecords.refl before

theorem onlyReads_get : (get : Work Workbench).OnlyReads :=
  fun before => SameRecords.refl before

theorem onlyReads_record (ref : RecordRef) : (record ref).OnlyReads :=
  fun before => SameRecords.refl before

theorem onlyReads_lift (outcome : Except Fault Result) :
    (liftM outcome : Work Result).OnlyReads :=
  fun before => SameRecords.refl before

theorem onlyReads_mark (value : Plain) : (mark value).OnlyReads := by
  intro before
  unfold mark
  split
  · exact ⟨rfl, rfl⟩
  · exact SameRecords.refl before

theorem succeeds_pure (result : Result) : (pure result : Work Result).Succeeds :=
  fun _ => ⟨result, rfl⟩

theorem succeeds_modify (edit : Workbench → Workbench) : (modify edit : Work PUnit).Succeeds :=
  fun _ => ⟨⟨⟩, rfl⟩

theorem succeeds_append (record : Record) : (append record).Succeeds :=
  fun before => ⟨before.pool.nextRef, rfl⟩

theorem succeeds_appendClones (source : Record) (mod : String) (count number : Nat) :
    (appendClones source mod count number).Succeeds := by
  induction count generalizing number with
  | zero => exact succeeds_pure []
  | succ count ih =>
    exact (succeeds_append _).bind fun clone =>
      (ih (number + 1)).bind fun rest => succeeds_pure (clone :: rest)

/-! ## Writes -/

/-- The only thing that may fail here is the check that the record has not been deleted,
and the override is made after it. -/
theorem traceless_ownVersion (ref : RecordRef) : (ownVersion ref).Traceless := by
  unfold ownVersion
  refine onlyReads_get.bind_traceless fun bench => traceless_guard _ ?_
  split
  · exact (succeeds_pure _).traceless
  · exact Succeeds.traceless ((succeeds_append _).bind fun own =>
      (succeeds_modify _).bind fun _ => succeeds_pure own)

theorem traceless_write (ref : RecordRef) (edit : Record → Record) :
    (write ref edit).Traceless := by
  unfold write
  refine (traceless_ownVersion ref).bind_succeeds fun own =>
    (succeeds_modify _).bind fun _ => ?_
  split
  · exact succeeds_modify _
  · exact succeeds_pure _

theorem traceless_setField (ref : RecordRef) (name text : String) :
    (setField ref name text).Traceless := by
  unfold setField
  refine (onlyReads_record ref).bind_traceless fun record => ?_
  split
  · exact (onlyReads_throw _).traceless
  · exact (onlyReads_lift _).bind_traceless fun converted =>
      (onlyReads_mark converted).bind_traceless fun value => traceless_write ref _

theorem traceless_forceSetField (ref : RecordRef) (name text declared : String) :
    (forceSetField ref name text declared).Traceless := by
  unfold forceSetField
  split
  · exact (onlyReads_throw _).traceless
  · exact (onlyReads_lift _).bind_traceless fun converted =>
      (onlyReads_mark converted).bind_traceless fun value => traceless_write ref _

theorem traceless_addLink (ref source : RecordRef) (category : String)
    (payload : Option (List Int)) (forced : Bool) :
    (addLink ref source category payload forced).Traceless := by
  unfold addLink
  refine (onlyReads_record ref).bind_traceless fun target => ?_
  refine (onlyReads_record source).bind_traceless fun linked => ?_
  split
  · exact (succeeds_modify _).traceless
  · exact traceless_write ref _

theorem traceless_deleteRecord (ref : RecordRef) : (deleteRecord ref).Traceless := by
  unfold deleteRecord
  refine onlyReads_get.bind_traceless fun bench => ?_
  dsimp only
  split
  · exact (succeeds_pure _).traceless
  · split
    · split
      · exact Succeeds.traceless ((succeeds_modify _).bind fun _ =>
          (succeeds_modify _).bind fun _ => succeeds_modify _)
      · exact traceless_write ref _
    · exact traceless_write ref _

theorem traceless_cloneRecord (ref : RecordRef) (count : Int) :
    (cloneRecord ref count).Traceless := by
  unfold cloneRecord
  refine traceless_guard _ (onlyReads_get.bind_traceless fun bench => Succeeds.traceless ?_)
  exact (succeeds_appendClones _ _ _ _).bind fun clones =>
    (succeeds_modify _).bind fun _ => succeeds_pure clones

end Work

/-! ## Calls that fail -/

/-- A write asked for on a record of the merged view, on an own record or on a clone fails
and leads from one workbench to another. -/
inductive FailedWrite (ref : RecordRef) (before : Workbench) (fault : Fault)
    (after : Workbench) : Prop
  | setField (name text : String)
      (hfails : (Work.setField ref name text).run before = (.error fault, after))
  | forceSetField (name text declared : String)
      (hfails : (Work.forceSetField ref name text declared).run before = (.error fault, after))
  | addLink (source : RecordRef) (category : String) (payload : Option (List Int))
      (forced : Bool)
      (hfails : (Work.addLink ref source category payload forced).run before =
        (.error fault, after))
  | deleteRecord (hfails : (Work.deleteRecord ref).run before = (.error fault, after))
  | cloneRecord (count : Int)
      (hfails : (Work.cloneRecord ref count).run before = (.error fault, after))

theorem Work.Traceless.sameRecords {Result : Type} {work : Work Result}
    (htraceless : work.Traceless) {before after : Workbench} {fault : Fault}
    (hfails : work.run before = (.error fault, after)) : SameRecords before after := by
  have hsame := htraceless before fault (congrArg Prod.fst hfails)
  rw [hfails] at hsame
  exact hsame

/-- The workbench with the axes, of which the first one has been deleted. -/
def axesBench : Workbench :=
  ((Work.deleteRecord ⟨0⟩).run { pool := axes.1, mod := axes.2 }).2

end Patchwork
