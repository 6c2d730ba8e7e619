import Patchwork.Proofs.Mod.StoreRuns
import Patchwork.Proofs.Trails.Moves
import Patchwork.Proofs.Trails.Rules

/-!
# Evaluations that keep to the rules

An evaluation keeps to the rules if it leads along a trail of moves that obey them, whether
it fails or not, if what it gives has a property, and if it fails with ordinary faults only.
What is built from evaluations that keep to the rules keeps to them.
-/

namespace Patchwork

/-! ## Moves that obey the rules -/

/-- Only a permitted procedure gives a field a declared type. -/
def Edit.Obeys (rules : Rules) : Edit → Prop
  | .forceSetField .. => rules.permits .forceSetField
  | _ => True

/-- The edited record lies where the records of groups may. -/
def Move.Obeys (rules : Rules) : Move → Prop
  | edited target edit => rules.first ≤ target.index ∧ edit.Obeys rules
  | _ => True

/-- Moves that obey the rules lead from one world to another. -/
def World.Leads (repository : Repository) (rules : Rules) (before after : World) : Prop :=
  ∃ moves, Trail repository before moves after ∧ ∀ move ∈ moves, move.Obeys rules

namespace World.Leads

variable {repository : Repository} {rules : Rules} {before between after : World}

theorem refl (repository : Repository) (rules : Rules) (world : World) :
    world.Leads repository rules world :=
  ⟨[], .done world, fun _ hmove => nomatch hmove⟩

theorem single (move : Move) (hmove : move.Leads repository before after)
    (hobeys : move.Obeys rules) : before.Leads repository rules after :=
  ⟨[move], .single hmove, List.forall_mem_singleton.mpr hobeys⟩

theorem of_rest (hpool : after.pool = before.pool) (hactive : after.active = before.active) :
    before.Leads repository rules after :=
  single .rested ⟨hpool, hactive⟩ trivial

theorem trans (hfirst : before.Leads repository rules between)
    (hsecond : between.Leads repository rules after) : before.Leads repository rules after := by
  obtain ⟨first, hearly, hobeysFirst⟩ := hfirst
  obtain ⟨second, hlate, hobeysSecond⟩ := hsecond
  exact ⟨first ++ second, hearly.append hlate,
    List.forall_mem_append.mpr ⟨hobeysFirst, hobeysSecond⟩⟩

/-- The pool never shrinks. -/
theorem size_le (hleads : before.Leads repository rules after) :
    before.pool.records.size ≤ after.pool.records.size := by
  obtain ⟨moves, htrail, -⟩ := hleads
  exact htrail.onward.retains.size_le

end World.Leads

/-! ## Keeping to the rules -/

namespace Eval

/-- From every world whose pool reaches to the first place of the rules an evaluation leads
along moves that obey them, and it gives something with a property or fails with an ordinary
fault. -/
structure Keeps {Result : Type} (repository : Repository) (rules : Rules)
    (evaluation : Eval Result) (gives : Result → Prop) : Prop where
  leads : ∀ before : World, rules.first ≤ before.pool.records.size →
    before.Leads repository rules (evaluation.run before).2
  meets : ∀ before : World, rules.first ≤ before.pool.records.size →
    Meets (evaluation.run before).1 gives

variable {Result Other Item : Type} {repository : Repository} {rules : Rules}
  {evaluation : Eval Result} {gives weaker : Result → Prop} {givesNext : Other → Prop}

theorem Keeps.mono (hkeeps : evaluation.Keeps repository rules gives)
    (hweaker : ∀ result, gives result → weaker result) :
    evaluation.Keeps repository rules weaker where
  leads := hkeeps.leads
  meets before hfirst := (hkeeps.meets before hfirst).mono hweaker

theorem Keeps.any (hkeeps : evaluation.Keeps repository rules gives) :
    evaluation.Keeps repository rules fun _ => True :=
  hkeeps.mono fun _ _ => trivial

/-- What an evaluation gives has another property whenever it gives anything. -/
theorem Keeps.and {also : Result → Prop} (hkeeps : evaluation.Keeps repository rules gives)
    (halso : ∀ before result after, evaluation.Yields before result after → also result) :
    evaluation.Keeps repository rules fun result => gives result ∧ also result where
  leads := hkeeps.leads
  meets before hfirst :=
    ⟨fun result hresult => ⟨(hkeeps.meets before hfirst).gives result hresult,
      halso before result _ (Prod.ext hresult rfl)⟩, (hkeeps.meets before hfirst).ordinary⟩

theorem Keeps.bind {next : Result → Eval Other} (hfirst : evaluation.Keeps repository rules gives)
    (hnext : ∀ result, gives result → (next result).Keeps repository rules givesNext) :
    Keeps repository rules (evaluation >>= next) givesNext := by
  have hboth : ∀ before : World, rules.first ≤ before.pool.records.size →
      before.Leads repository rules ((evaluation >>= next).run before).2 ∧
        Meets ((evaluation >>= next).run before).1 givesNext := by
    intro before hsize
    have hleads := hfirst.leads before hsize
    have hmeets := hfirst.meets before hsize
    rw [run_bind]
    generalize evaluation.run before = ran at hleads hmeets ⊢
    obtain ⟨outcome, between⟩ := ran
    cases outcome with
    | error fault => exact ⟨hleads, meets_error (hmeets.ordinary fault rfl)⟩
    | ok result =>
      have hrest := hnext result (hmeets.gives result rfl)
      have hbetween := Nat.le_trans hsize hleads.size_le
      exact ⟨hleads.trans (hrest.leads between hbetween), hrest.meets between hbetween⟩
  exact ⟨fun before hsize => (hboth before hsize).1, fun before hsize => (hboth before hsize).2⟩

/-- A step whose result has no property that the rest depends on. -/
theorem Keeps.andThen {next : Result → Eval Other}
    (hfirst : evaluation.Keeps repository rules gives)
    (hnext : ∀ result, (next result).Keeps repository rules givesNext) :
    Keeps repository rules (evaluation >>= next) givesNext :=
  hfirst.bind fun result _ => hnext result

/-! ## Steps that rest -/

/-- An evaluation that leaves the records and the mod alone. -/
theorem keeps_of_rest (hpool : ∀ before : World, (evaluation.run before).2.pool = before.pool)
    (hactive : ∀ before : World, (evaluation.run before).2.active = before.active)
    (hmeets : ∀ before : World, Meets (evaluation.run before).1 gives) :
    evaluation.Keeps repository rules gives where
  leads before _ := World.Leads.of_rest (hpool before) (hactive before)
  meets before _ := hmeets before

theorem keeps_pure {result : Result} (hresult : gives result) :
    (pure result : Eval Result).Keeps repository rules gives :=
  keeps_of_rest (fun _ => rfl) (fun _ => rfl) fun _ => meets_ok hresult

theorem keeps_throw {fault : Fault} (hfault : fault.Ordinary) :
    (throw fault : Eval Result).Keeps repository rules gives :=
  keeps_of_rest (fun _ => rfl) (fun _ => rfl) fun _ => meets_error hfault

theorem keeps_fail {fault : EvaluationFault} (hfault : fault.Ordinary) :
    (fail fault : Eval Result).Keeps repository rules gives :=
  keeps_throw hfault

theorem keeps_fail_bind {fault : EvaluationFault} (hfault : fault.Ordinary)
    (next : Result → Eval Other) : Keeps repository rules (fail fault >>= next) givesNext := by
  have hfails : (fail fault : Eval Result).Keeps repository rules fun _ => False :=
    keeps_fail hfault
  exact hfails.bind fun _ hfalse => hfalse.elim

theorem keeps_settle {outcome : Except Fault Result} (hmeets : Meets outcome gives) :
    (settle outcome).Keeps repository rules gives := by
  cases outcome with
  | ok result => exact keeps_pure (hmeets.gives result rfl)
  | error fault => exact keeps_throw (hmeets.ordinary fault rfl)

theorem keeps_get : (get : Eval World).Keeps repository rules fun _ => True :=
  keeps_of_rest (fun _ => rfl) (fun _ => rfl) fun _ => meets_ok trivial

theorem keeps_labels : labels.Keeps repository rules fun _ => True :=
  keeps_get.andThen fun _ => keeps_pure trivial

theorem keeps_labelled {compute : Labels → Except Fault Result}
    (hmeets : ∀ labels, Meets (compute labels) gives) :
    (labelled compute).Keeps repository rules gives :=
  keeps_labels.andThen fun labels => keeps_settle (hmeets labels)

theorem keeps_record (ref : RecordRef) : (record ref).Keeps repository rules fun _ => True :=
  keeps_get.andThen fun _ => keeps_pure trivial

/-- A change to nothing but the draws, the stop flag, the marks and the notices. -/
theorem keeps_modify {change : World → World} (hpool : ∀ world, (change world).pool = world.pool)
    (hactive : ∀ world, (change world).active = world.active) :
    (modify change : Eval PUnit).Keeps repository rules fun _ => True :=
  keeps_of_rest hpool hactive fun _ => meets_ok trivial

theorem keeps_note (level : Level) (source : Source) (text : String) :
    (note level source text).Keeps repository rules fun _ => True :=
  keeps_modify (fun _ => rfl) fun _ => rfl

theorem keeps_nextMark : nextMark.Keeps repository rules fun _ => True :=
  keeps_of_rest (fun _ => rfl) (fun _ => rfl) fun _ => meets_ok trivial

theorem keeps_mark {value : Value} (hvalue : value.Obeys rules) :
    (mark value).Keeps repository rules (Value.Obeys rules) := by
  unfold mark
  split
  · exact keeps_nextMark.andThen fun _ => keeps_pure trivial
  · exact keeps_pure hvalue

theorem keeps_requireActive : requireActive.Keeps repository rules fun _ => True := by
  refine keeps_get.andThen fun world => ?_
  split
  · exact keeps_pure trivial
  · exact keeps_fail trivial

/-- Data as a result. -/
theorem keeps_data {value : Value} (hdata : value.Data) :
    (pure value : Eval Value).Keeps repository rules (Value.Obeys rules) :=
  keeps_pure hdata.obeys

/-- A drawn number. -/
theorem keeps_draw {Number : Type} (draw : Draws → Number × Draws) {value : Number → Value}
    (hdata : ∀ number, (value number).Data) :
    (do
      let world ← get
      let (number, draws) := draw world.draws
      set { world with draws := draws }
      return value number : Eval Value).Keeps repository rules (Value.Obeys rules) :=
  keeps_of_rest (fun _ => rfl) (fun _ => rfl) fun _ => meets_ok (hdata _).obeys

/-! ## Several steps -/

theorem keeps_mapM {step : Item → Eval Other} {items : List Item}
    (hstep : ∀ item ∈ items, (step item).Keeps repository rules givesNext) :
    (items.mapM step).Keeps repository rules fun results =>
      ∀ result ∈ results, givesNext result := by
  induction items with
  | nil => exact keeps_pure fun _ hresult => nomatch hresult
  | cons item rest ih =>
    rw [List.mapM_cons]
    refine (hstep item List.mem_cons_self).bind fun first hfirst => ?_
    refine (ih fun other hother => hstep other (List.mem_cons_of_mem _ hother)).bind
      fun others hothers => ?_
    exact keeps_pure (List.forall_mem_cons.mpr ⟨hfirst, hothers⟩)

theorem keeps_forM {step : Item → Eval PUnit} {items : List Item}
    (hstep : ∀ item ∈ items, (step item).Keeps repository rules fun _ => True) :
    (items.forM step).Keeps repository rules fun _ => True := by
  induction items with
  | nil => exact keeps_pure trivial
  | cons item rest ih =>
    exact (hstep item List.mem_cons_self).andThen fun _ =>
      ih fun other hother => hstep other (List.mem_cons_of_mem _ hother)

/-- A value that obeys the rules in front of values that do. -/
theorem Keeps.cons {first : Eval Value} {others : Eval (List Value)}
    (hfirst : first.Keeps repository rules (Value.Obeys rules))
    (hothers : others.Keeps repository rules fun values => ∀ value ∈ values, value.Obeys rules) :
    (do return (← first) :: (← others) : Eval (List Value)).Keeps repository rules
      fun values => ∀ value ∈ values, value.Obeys rules :=
  hfirst.bind fun _ hvalue => hothers.bind fun _ hvalues => keeps_pure
    (List.forall_mem_cons.mpr ⟨hvalue, hvalues⟩)

theorem keeps_insideLambda (node : Node) (hkeeps : evaluation.Keeps repository rules gives) :
    (insideLambda node evaluation).Keeps repository rules gives := by
  have hboth : ∀ before : World, rules.first ≤ before.pool.records.size →
      before.Leads repository rules ((insideLambda node evaluation).run before).2 ∧
        Meets ((insideLambda node evaluation).run before).1 gives := by
    intro before hsize
    have hleads := hkeeps.leads before hsize
    have hmeets := hkeeps.meets before hsize
    rw [insideLambda, Agree.Computations.run_tryCatch]
    generalize evaluation.run before = ran at hleads hmeets ⊢
    obtain ⟨outcome, after⟩ := ran
    cases outcome with
    | ok result => exact ⟨hleads, hmeets⟩
    | error fault =>
      have hordinary := hmeets.ordinary fault rfl
      cases fault with
      | evaluation cause => exact ⟨hleads, meets_error hordinary⟩
      | _ => exact ⟨hleads, meets_error trivial⟩
  exact ⟨fun before hsize => (hboth before hsize).1, fun before hsize => (hboth before hsize).2⟩

/-! ## Arguments -/

/-- An argument that keeps to the rules and gives values that obey them. -/
def KeptArgument (repository : Repository) (rules : Rules) (argument : Argument) : Prop :=
  ∀ record, (argument record).Keeps repository rules (Value.Obeys rules)

/-- An argument that is there is read without fail. -/
theorem keeps_argument {arguments : List Argument}
    (harguments : ∀ argument ∈ arguments, KeptArgument repository rules argument) (name : String)
    {position : Nat} (hposition : position < arguments.length) :
    KeptArgument repository rules (Eval.argument name arguments position) := by
  intro record
  unfold Eval.argument
  rw [List.getElem?_eq_getElem hposition]
  exact harguments _ (List.getElem_mem hposition) record

end Eval

/-! ## Operations of the store -/

namespace Work

variable {Result Other : Type}

/-- An operation fails with ordinary faults only. -/
def FailsOrdinarily (work : Work Result) : Prop :=
  ∀ bench fault, (work.run bench).1 = .error fault → fault.Ordinary

variable {work : Work Result}

theorem failsOrdinarily_throw {fault : Fault} (hfault : fault.Ordinary) :
    (throw fault : Work Result).FailsOrdinarily := by
  intro bench other hrun
  cases hrun
  exact hfault

theorem failsOrdinarily_of_ok (hok : ∀ bench, ∃ result, (work.run bench).1 = .ok result) :
    work.FailsOrdinarily := by
  intro bench fault hrun
  obtain ⟨result, hresult⟩ := hok bench
  rw [hresult] at hrun
  cases hrun

theorem FailsOrdinarily.bind {next : Result → Work Other} (hwork : work.FailsOrdinarily)
    (hnext : ∀ result, (next result).FailsOrdinarily) : FailsOrdinarily (work >>= next) := by
  intro bench fault hrun
  rw [Agree.Computations.run_bind] at hrun
  have hfirst := hwork bench
  cases hran : work.run bench with
  | mk outcome between =>
    rw [hran] at hrun hfirst
    cases outcome with
    | error other =>
      cases hrun
      exact hfirst _ rfl
    | ok result => exact hnext result between fault hrun

theorem failsOrdinarily_lift {outcome : Except Fault Result} {holds : Result → Prop}
    (hmeets : Meets outcome holds) : (liftM outcome : Work Result).FailsOrdinarily := by
  intro bench fault hrun
  cases outcome with
  | ok result => cases hrun
  | error other => exact (Except.error.inj hrun) ▸ hmeets.ordinary other rfl

theorem failsOrdinarily_mark (value : Plain) : (mark value).FailsOrdinarily := by
  refine failsOrdinarily_of_ok fun bench => ?_
  unfold mark
  split <;> exact ⟨_, rfl⟩

theorem failsOrdinarily_write (ref : RecordRef) (edit : Record → Record) :
    (write ref edit).FailsOrdinarily := by
  have hown : (ownVersion ref).FailsOrdinarily := by
    refine (failsOrdinarily_of_ok fun bench => ⟨_, rfl⟩).bind fun bench => ?_
    have hdeleted : (throw (.store (.deletedRecord (bench.pool.get ref).label bench.mod.name)) :
        Work PUnit).FailsOrdinarily := failsOrdinarily_throw trivial
    dsimp only
    split
    · exact hdeleted.bind fun _ => by
        split <;> exact failsOrdinarily_of_ok fun _ => ⟨_, rfl⟩
    · split <;> exact failsOrdinarily_of_ok fun _ => ⟨_, rfl⟩
  refine hown.bind fun own => (failsOrdinarily_of_ok fun _ => ⟨_, rfl⟩).bind fun _ => ?_
  split <;> exact failsOrdinarily_of_ok fun _ => ⟨_, rfl⟩

theorem failsOrdinarily_edit (target : RecordRef) (edit : Edit) :
    (edit.work target).FailsOrdinarily := by
  cases edit with
  | setField name text =>
    refine (failsOrdinarily_of_ok fun _ => ⟨_, rfl⟩).bind fun record => ?_
    split
    · exact failsOrdinarily_throw trivial
    · exact (failsOrdinarily_lift (FieldType.meets_convert _ _)).bind fun converted =>
        (failsOrdinarily_mark converted).bind fun _ => failsOrdinarily_write _ _
  | forceSetField name text declared =>
    unfold Edit.work Work.forceSetField
    dsimp only
    split
    · exact failsOrdinarily_throw trivial
    · exact (failsOrdinarily_lift (FieldType.meets_convert _ _)).bind fun converted =>
        (failsOrdinarily_mark converted).bind fun _ => failsOrdinarily_write _ _
  | delete =>
    refine (failsOrdinarily_of_ok fun _ => ⟨_, rfl⟩).bind fun bench => ?_
    dsimp only
    split
    · exact failsOrdinarily_of_ok fun _ => ⟨_, rfl⟩
    split
    · split
      · exact failsOrdinarily_of_ok fun _ => ⟨_, rfl⟩
      · exact failsOrdinarily_write _ _
    · exact failsOrdinarily_write _ _
  | relink link => exact failsOrdinarily_write _ _
  | addLink source category payload forced =>
    refine (failsOrdinarily_of_ok fun _ => ⟨_, rfl⟩).bind fun record =>
      (failsOrdinarily_of_ok fun _ => ⟨_, rfl⟩).bind fun linked => ?_
    split
    · exact failsOrdinarily_of_ok fun _ => ⟨_, rfl⟩
    · exact failsOrdinarily_write _ _

theorem failsOrdinarily_appendClones (source : Record) (mod : String) (count number : Nat) :
    (appendClones source mod count number).FailsOrdinarily := by
  induction count generalizing number with
  | zero => exact failsOrdinarily_of_ok fun _ => ⟨_, rfl⟩
  | succ count ih =>
    exact (failsOrdinarily_of_ok fun _ => ⟨_, rfl⟩).bind fun clone =>
      (ih (number + 1)).bind fun _ => failsOrdinarily_of_ok fun _ => ⟨_, rfl⟩

theorem failsOrdinarily_cloneRecord (ref : RecordRef) (count : Int) :
    (cloneRecord ref count).FailsOrdinarily := by
  have hrest : (do
      let bench ← get
      let source := bench.pool.get ref
      let clones ← appendClones source bench.mod.name count.toNat
        (bench.mod.nextIdNumber bench.pool)
      note (bench.mod.name ++ ": cloned " ++ source.label ++ " " ++ integerText count ++
        " time(s)")
      return clones : Work (List RecordRef)).FailsOrdinarily :=
    (failsOrdinarily_of_ok fun _ => ⟨_, rfl⟩).bind fun bench =>
      (failsOrdinarily_appendClones _ _ _ _).bind fun clones =>
        failsOrdinarily_of_ok fun _ => ⟨_, rfl⟩
  have hnegative : (throw (.store (.negativeCount count)) : Work PUnit).FailsOrdinarily :=
    failsOrdinarily_throw trivial
  unfold cloneRecord
  split
  · exact hnegative.bind fun _ => hrest
  · exact hrest

end Work

namespace Eval

variable {Result : Type} {repository : Repository} {rules : Rules}

theorem meets_onActive {work : Work Result} (hwork : work.FailsOrdinarily) (before : World) :
    Meets ((onActive work).run before).1 fun _ => True := by
  have hget : (get : Eval World).run before = (.ok before, before) := rfl
  cases hmod : before.active with
  | none =>
    rw [onActive, run_bind, requireActive, run_bind, hget]
    simp only [hmod]
    exact meets_error trivial
  | some mod =>
    rw [onActive, run_bind, requireActive, run_bind, hget]
    simp only [hmod]
    change Meets ((get >>= _ : Eval Result).run before).1 _
    rw [run_bind, hget]
    cases hrun : work.run ⟨before.pool, mod, before.journal, before.marks⟩ with
    | mk outcome bench =>
      cases outcome with
      | error fault =>
        simp only [hrun]
        exact meets_error (hwork _ fault (congrArg Prod.fst hrun))
      | ok result =>
        simp only [hrun]
        exact meets_ok trivial

/-- An operation of the store is a move if it gives a result, and otherwise does nothing. -/
theorem keeps_onActive {work : Work Result} (move : Move) (hwork : work.FailsOrdinarily)
    (hmove : ∀ before result after, (onActive work).Yields before result after →
      move.Leads repository before after) (hobeys : move.Obeys rules) :
    (onActive work).Keeps repository rules fun _ => True where
  leads before _ := by
    obtain hsame | ⟨result, hyields⟩ := onActive_cases work before
    · rw [hsame]
      exact World.Leads.refl repository rules before
    · exact World.Leads.single move (hmove before result _ hyields) hobeys
  meets before _ := meets_onActive hwork before

theorem keeps_edit (target : RecordRef) (edit : Edit) (htarget : rules.first ≤ target.index)
    (hedit : edit.Obeys rules) :
    (onActive (edit.work target)).Keeps repository rules fun _ => True :=
  keeps_onActive (.edited target edit) (Work.failsOrdinarily_edit target edit)
    (fun _ _ _ hyields => hyields) ⟨htarget, hedit⟩

theorem keeps_addDependencies (entries : List Plain) :
    (onActive (Work.addDependencies entries)).Keeps repository rules fun _ => True :=
  keeps_onActive (.depended entries) (Work.failsOrdinarily_of_ok fun _ => ⟨_, rfl⟩)
    (fun _ _ _ hyields => hyields) trivial

theorem keeps_addReferences (entries : List Plain) :
    (onActive (Work.addReferences entries)).Keeps repository rules fun _ => True :=
  keeps_onActive (.referred entries) (Work.failsOrdinarily_of_ok fun _ => ⟨_, rfl⟩)
    (fun _ _ _ hyields => hyields) trivial

/-- Clones lie beyond all records there are. -/
theorem keeps_cloneRecord (source : RecordRef) (count : Int) :
    (onActive (Work.cloneRecord source count)).Keeps repository rules fun clones =>
      ∀ clone ∈ clones, rules.first ≤ clone.index := by
  have hkeeps : (onActive (Work.cloneRecord source count)).Keeps repository rules fun _ => True :=
    keeps_onActive (.cloned source count) (Work.failsOrdinarily_cloneRecord source count)
      (fun _ clones _ hyields => ⟨clones, hyields⟩) trivial
  refine ⟨hkeeps.leads, fun before hsize => ⟨fun clones hclones clone hclone => ?_, ?_⟩⟩
  · obtain ⟨mod, -, -, early, late, hearly, -, -, hmade⟩ :=
      World.clones_of_yields (Prod.ext hclones rfl)
    have hfresh : ¬ before.pool.Holds clone := hearly ▸ (hmade.fresh clone hclone).1
    exact Nat.le_trans hsize (Nat.not_lt.mp hfresh)
  · exact (hkeeps.meets before hsize).ordinary

end Eval

end Patchwork
