import Patchwork.Proofs.Evaluation.Substitution
import Patchwork.Proofs.Horizon.Store

/-!
# Evaluations that stay within a horizon

An evaluation leads only to records within a horizon, unless the pool or the marks grow
beyond it.  What it gives is within the horizon if what it is made of is: a result is
described by what holds of it then, and a later step may rely on it.
-/

namespace Patchwork

variable {horizon : Horizon} {Result Other Item : Type}

namespace Eval

/-- An evaluation that stays within a horizon, whether it fails or not. -/
structure Stays (horizon : Horizon) (gives : Result → Prop) (evaluation : Eval Result) :
    Prop where
  keeps : ∀ before : World, horizon.Keeps before.pool before.marks
    (evaluation.run before).2.pool (evaluation.run before).2.marks
  gives : ∀ (before : World) (result : Result) (after : World),
    evaluation.Yields before result after → before.pool.Within horizon →
      horizon.Covers after.pool after.marks → gives result

variable {gives : Result → Prop} {givesNext : Other → Prop} {evaluation : Eval Result}

theorem Stays.mono (hstays : evaluation.Stays horizon gives) {more : Result → Prop}
    (hmore : ∀ result, gives result → more result) : evaluation.Stays horizon more where
  keeps := hstays.keeps
  gives before result after hyields hpool hcovers :=
    hmore result (hstays.gives before result after hyields hpool hcovers)

theorem Stays.any (hstays : evaluation.Stays horizon gives) :
    evaluation.Stays horizon fun _ => True :=
  hstays.mono fun _ _ => trivial

theorem stays_pure {result : Result} (hresult : gives result) :
    (pure result : Eval Result).Stays horizon gives where
  keeps _ := Horizon.Keeps.refl _ _
  gives before given after hyields _ _ := by
    obtain ⟨rfl, -⟩ := yields_pure.mp hyields
    exact hresult

theorem stays_throw (fault : Fault) : (throw fault : Eval Result).Stays horizon gives where
  keeps _ := Horizon.Keeps.refl _ _
  gives _ _ _ hyields _ _ := absurd hyields not_yields_throw

theorem stays_fail (fault : EvaluationFault) : (fail fault : Eval Result).Stays horizon gives :=
  stays_throw (.evaluation fault)

/-- What comes second may rely on what the first evaluation has given. -/
theorem Stays.bind {next : Result → Eval Other} (hfirst : evaluation.Stays horizon gives)
    (hnext : ∀ result, (next result).Stays horizon fun last => gives result → givesNext last) :
    (evaluation >>= next).Stays horizon givesNext where
  keeps before := by
    have hkeeps := hfirst.keeps before
    rw [run_bind]
    generalize evaluation.run before = ran at hkeeps ⊢
    obtain ⟨fault | result, between⟩ := ran
    · exact hkeeps
    · exact hkeeps.trans ((hnext result).keeps between)
  gives before last after hyields hpool hcovers := by
    obtain ⟨result, between, hresult, hrest⟩ := yields_bind.mp hyields
    have hkeeps := hfirst.keeps before
    have hkeepsNext := (hnext result).keeps between
    rw [hresult] at hkeeps
    rw [hrest] at hkeepsNext
    have hbetween := hkeepsNext.covers hcovers
    exact (hnext result).gives between last after hrest (hkeeps.within hpool hbetween) hcovers
      (hfirst.gives before result between hresult hpool hbetween)

theorem Stays.andThen {next : Result → Eval Other} (hfirst : evaluation.Stays horizon gives)
    (hnext : ∀ result, (next result).Stays horizon givesNext) :
    (evaluation >>= next).Stays horizon givesNext :=
  hfirst.bind fun result => (hnext result).mono fun _ hlast _ => hlast

theorem stays_fail_bind (fault : EvaluationFault) (next : Result → Eval Other) :
    Stays horizon givesNext (fail fault >>= next) where
  keeps _ := Horizon.Keeps.refl _ _
  gives _ _ _ hyields _ _ := by
    obtain ⟨_, _, hfailed, -⟩ := yields_bind.mp hyields
    exact absurd hfailed not_yields_fail

/-- A step that leaves the records and the marks alone. -/
theorem stays_of_still (hpool : ∀ before : World, (evaluation.run before).2.pool = before.pool)
    (hmarks : ∀ before : World, (evaluation.run before).2.marks = before.marks) :
    evaluation.Stays horizon fun _ => True where
  keeps before := by
    rw [hpool, hmarks]
    exact Horizon.Keeps.refl _ _
  gives _ _ _ _ _ _ := trivial

theorem stays_get : (get : Eval World).Stays horizon fun world =>
    world.pool.Within horizon ∧ Labels.Within horizon world.pool.label where
  keeps _ := Horizon.Keeps.refl _ _
  gives before result after hyields hpool hcovers := by
    obtain ⟨rfl, rfl⟩ := yields_get.mp hyields
    exact ⟨hpool, hcovers.labels⟩

theorem stays_settle {outcome : Except Fault Result}
    (hresult : ∀ result, outcome = .ok result → gives result) :
    (settle outcome).Stays horizon gives := by
  cases outcome with
  | error fault => exact stays_throw fault
  | ok result => exact stays_pure (hresult result rfl)

theorem stays_settled (outcome : Except Fault Result) :
    (settle outcome).Stays horizon fun _ => True :=
  stays_settle fun _ _ => trivial

theorem stays_labels : labels.Stays horizon (Labels.Within horizon) :=
  stays_get.bind fun _ => stays_pure And.right

theorem stays_labelled {compute : Labels → Except Fault Result}
    (hcompute : ∀ labels, Labels.Within horizon labels → ∀ result, compute labels = .ok result →
      gives result) :
    (labelled compute).Stays horizon gives :=
  stays_labels.bind fun labels => stays_settle fun result hresult hlabels =>
    hcompute labels hlabels result hresult

/-- A computation whose result has no places and marks. -/
theorem stays_plain (compute : Labels → Except Fault Result) :
    (labelled compute).Stays horizon fun _ => True :=
  stays_labelled fun _ _ _ _ => trivial

theorem stays_record (ref : RecordRef) : (record ref).Stays horizon (Record.Within horizon) :=
  stays_get.bind fun _ => stays_pure fun hworld => hworld.1 ref

theorem stays_modify {change : World → World} (hpool : ∀ world, (change world).pool = world.pool)
    (hmarks : ∀ world, (change world).marks = world.marks) :
    (modify change : Eval PUnit).Stays horizon fun _ => True :=
  stays_of_still hpool hmarks

theorem stays_note (level : Level) (source : Source) (text : String) :
    (note level source text).Stays horizon fun _ => True :=
  stays_modify (fun _ => rfl) fun _ => rfl

theorem stays_nextMark : nextMark.Stays horizon fun mark => mark ≤ horizon.marks where
  keeps before := Horizon.Keeps.of_marks before.pool (Nat.le_succ before.marks)
  gives before result after hyields _ hcovers := by
    cases hyields
    exact hcovers.marks

theorem stays_mark (value : Value) :
    (mark value).Stays horizon fun marked => value.Within horizon → marked.Within horizon := by
  unfold mark
  split
  · exact stays_nextMark.bind fun _ => stays_pure fun hmark _ => Value.within_nan hmark
  · exact stays_pure id

theorem stays_requireActive : requireActive.Stays horizon fun _ => True := by
  refine stays_get.andThen fun world => ?_
  cases world.active with
  | none => exact stays_fail _
  | some mod => exact stays_pure trivial

theorem stays_onActive {work : Work Result} (hwork : work.Stays horizon gives) :
    (onActive work).Stays horizon gives where
  keeps before := by
    obtain hsame | ⟨result, hyields⟩ := onActive_cases work before
    · rw [hsame]
      exact Horizon.Keeps.refl _ _
    · generalize ((onActive work).run before).2 = after at hyields ⊢
      obtain ⟨mod, bench, -, hbench, rfl⟩ := yields_onActive.mp hyields
      exact (hwork _ result bench hbench).1
  gives before result after hyields hpool hcovers := by
    obtain ⟨mod, bench, -, hbench, rfl⟩ := yields_onActive.mp hyields
    exact (hwork _ result bench hbench).2 hpool hcovers

/-- A drawn number. -/
theorem stays_draw {Number : Type} (draw : Draws → Number × Draws) {value : Number → Value}
    (hvalue : ∀ draws, (value (draw draws).1).Within horizon) :
    (do
      let world ← get
      let (number, draws) := draw world.draws
      set { world with draws := draws }
      return value number : Eval Value).Stays horizon (Value.Within horizon) where
  keeps _ := Horizon.Keeps.refl _ _
  gives before result after hyields _ _ := by
    cases hyields
    exact hvalue _

/-! ## Several steps -/

/-- What one step gives may depend on what it is done for. -/
theorem stays_mapM {step : Item → Eval Other} {items : List Item} {holds : Item → Prop}
    (hstep : ∀ item ∈ items, (step item).Stays horizon fun result =>
      holds item → givesNext result) :
    (items.mapM step).Stays horizon fun results =>
      (∀ item ∈ items, holds item) → ∀ result ∈ results, givesNext result := by
  induction items with
  | nil => exact stays_pure fun _ _ hresult => nomatch hresult
  | cons item rest ih =>
    rw [List.mapM_cons]
    refine (hstep item List.mem_cons_self).bind fun first => ?_
    refine (ih fun other hother => hstep other (List.mem_cons_of_mem _ hother)).bind
      fun others => ?_
    refine stays_pure fun hothers hfirst hall => ?_
    obtain ⟨hitem, hrest⟩ := List.forall_mem_cons.mp hall
    exact List.forall_mem_cons.mpr ⟨hfirst hitem, hothers hrest⟩

theorem stays_forM {step : Item → Eval PUnit} {items : List Item}
    (hstep : ∀ item ∈ items, (step item).Stays horizon fun _ => True) :
    (items.forM step).Stays horizon fun _ => True := by
  induction items with
  | nil => exact stays_pure trivial
  | cons item rest ih =>
    exact (hstep item List.mem_cons_self).andThen fun _ =>
      ih fun other hother => hstep other (List.mem_cons_of_mem _ hother)

theorem stays_insideLambda (node : Node) (hstays : evaluation.Stays horizon gives) :
    (insideLambda node evaluation).Stays horizon gives where
  keeps before := by
    have hkeeps := hstays.keeps before
    rw [insideLambda, Agree.Computations.run_tryCatch]
    generalize evaluation.run before = ran at hkeeps ⊢
    obtain ⟨fault | result, after⟩ := ran
    · cases fault <;> exact hkeeps
    · exact hkeeps
  gives before result after hyields := by
    refine hstays.gives before result after ?_
    exact (sameYields_insideLambda node evaluation before result after).mp hyields

/-! ## Arguments -/

/-- An argument that stays within a horizon and gives values within it, if something holds
of what it is made of. -/
def StayingArgument (horizon : Horizon) (holds : Prop) (argument : Argument) : Prop :=
  ∀ record, (argument record).Stays horizon fun value =>
    holds → Currently horizon record → value.Within horizon

theorem stays_argument {holds : Prop} {arguments : List Argument}
    (harguments : ∀ argument ∈ arguments, StayingArgument horizon holds argument) (name : String)
    (position : Nat) : StayingArgument horizon holds (Eval.argument name arguments position) := by
  intro record
  unfold Eval.argument
  cases hargument : arguments[position]? with
  | none => exact stays_fail _
  | some argument => exact harguments argument (List.mem_of_getElem? hargument) record

end Eval

end Patchwork
