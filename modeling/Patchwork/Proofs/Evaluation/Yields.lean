import Patchwork.Evaluation.World

/-!
# Evaluations that give a result

An evaluation leads from one world to another and gives a result or a fault.
`Yields` says that it gives a result, and the lemmas of this file say when each
of the steps that evaluations are built from does.
-/

namespace Patchwork

namespace Eval

variable {Result Other Item : Type}

/-- An evaluation gives `result` and leads from the world `before` to the world
`after`. -/
def Yields (evaluation : Eval Result) (before : World) (result : Result)
    (after : World) : Prop :=
  evaluation.run before = (.ok result, after)

theorem exists_yields_of_isOk {evaluation : Eval Result} {before : World}
    (hok : (evaluation.run before).1.isOk = true) :
    ∃ result after, evaluation.Yields before result after := by
  cases hrun : evaluation.run before with
  | mk outcome after =>
    rw [hrun] at hok
    cases outcome with
    | error fault => cases hok
    | ok result => exact ⟨result, after, hrun⟩

theorem yields_of_isOk {evaluation : Eval Unit} {before : World}
    (hok : (evaluation.run before).1.isOk = true) :
    evaluation.Yields before () (evaluation.run before).2 := by
  obtain ⟨_, after, hyields⟩ := exists_yields_of_isOk hok
  rw [show (evaluation.run before).2 = after from congrArg Prod.snd hyields]
  exact hyields

theorem run_bind (evaluation : Eval Result) (next : Result → Eval Other)
    (before : World) :
    (evaluation >>= next).run before =
      match evaluation.run before with
      | (.ok result, between) => (next result).run between
      | (.error fault, between) => (.error fault, between) := by
  rw [ExceptT.run_bind]
  simp only [bind, StateT.bind]
  cases evaluation.run before with
  | mk outcome between => cases outcome <;> rfl

@[simp]
theorem yields_pure {given result : Result} {before after : World} :
    (pure given : Eval Result).Yields before result after ↔
      given = result ∧ before = after := by
  change (Except.ok given, before) = (Except.ok result, after) ↔ _
  simp

theorem yields_bind {evaluation : Eval Result} {next : Result → Eval Other}
    {before after : World} {result : Other} :
    (evaluation >>= next).Yields before result after ↔
      ∃ given between, evaluation.Yields before given between ∧
        (next given).Yields between result after := by
  simp only [Yields, run_bind]
  constructor
  · intro hyields
    cases hrun : evaluation.run before with
    | mk outcome between =>
      rw [hrun] at hyields
      cases outcome with
      | ok given => exact ⟨given, between, rfl, hyields⟩
      | error fault => cases hyields
  · rintro ⟨given, between, hfirst, hnext⟩
    rw [hfirst]
    exact hnext

@[simp]
theorem not_yields_throw {fault : Fault} {result : Result} {before after : World} :
    ¬ (throw fault : Eval Result).Yields before result after := by
  intro hyields
  cases hyields

@[simp]
theorem not_yields_fail {fault : EvaluationFault} {result : Result}
    {before after : World} : ¬ (fail fault : Eval Result).Yields before result after :=
  not_yields_throw

@[simp]
theorem yields_get {before after result : World} :
    (get : Eval World).Yields before result after ↔
      before = result ∧ before = after := by
  change (Except.ok before, before) = (Except.ok result, after) ↔ _
  simp

@[simp]
theorem yields_set {before after world : World} {result : PUnit} :
    (set world : Eval PUnit).Yields before result after ↔ world = after := by
  change (Except.ok PUnit.unit, world) = (Except.ok result, after) ↔ _
  simp

@[simp]
theorem yields_settle {outcome : Except Fault Result} {result : Result}
    {before after : World} :
    (settle outcome).Yields before result after ↔
      outcome = .ok result ∧ before = after := by
  cases outcome with
  | ok given => simp [settle]
  | error fault => simp [settle]

@[simp]
theorem yields_labels {before after : World} {result : Labels} :
    labels.Yields before result after ↔
      before.pool.label = result ∧ before = after := by
  simp only [labels, yields_bind, yields_get, yields_pure]
  constructor
  · rintro ⟨_, _, ⟨rfl, rfl⟩, hlabels, rfl⟩
    exact ⟨hlabels, rfl⟩
  · rintro ⟨hlabels, rfl⟩
    exact ⟨before, before, ⟨rfl, rfl⟩, hlabels, rfl⟩

@[simp]
theorem yields_labelled {compute : Labels → Except Fault Result} {result : Result}
    {before after : World} :
    (labelled compute).Yields before result after ↔
      compute before.pool.label = .ok result ∧ before = after := by
  simp only [labelled, yields_bind, yields_labels, yields_settle]
  constructor
  · rintro ⟨_, _, ⟨rfl, rfl⟩, hcompute, rfl⟩
    exact ⟨hcompute, rfl⟩
  · rintro ⟨hcompute, rfl⟩
    exact ⟨_, before, ⟨rfl, rfl⟩, hcompute, rfl⟩

theorem run_labelled (compute : Labels → Except Fault Result) (before : World) :
    (labelled compute).run before = (compute before.pool.label, before) := by
  rw [labelled, run_bind]
  change (settle (compute before.pool.label)).run before = _
  cases compute before.pool.label <;> rfl

theorem run_mapM_labelled (compute : Item → Labels → Except Fault Result) (items : List Item)
    (before : World) :
    (items.mapM fun item => labelled (compute item)).run before =
      (items.mapM fun item => compute item before.pool.label, before) := by
  induction items with
  | nil => rfl
  | cons item rest ih =>
    rw [List.mapM_cons, List.mapM_cons, run_bind, run_labelled]
    cases compute item before.pool.label with
    | error fault => rfl
    | ok result =>
      dsimp only
      rw [run_bind, ih]
      cases rest.mapM fun item => compute item before.pool.label <;> rfl

@[simp]
theorem yields_record {ref : RecordRef} {before after : World} {result : Record} :
    (record ref).Yields before result after ↔
      before.pool.get ref = result ∧ before = after := by
  simp only [record, yields_bind, yields_get, yields_pure]
  constructor
  · rintro ⟨_, _, ⟨rfl, rfl⟩, hget, rfl⟩
    exact ⟨hget, rfl⟩
  · rintro ⟨hget, rfl⟩
    exact ⟨before, before, ⟨rfl, rfl⟩, hget, rfl⟩

theorem yields_nextMark {before after : World} {given : Nat} :
    nextMark.Yields before given after ↔
      before.marks + 1 = given ∧ { before with marks := before.marks + 1 } = after := by
  simp only [nextMark, yields_bind, yields_get, yields_set, yields_pure]
  constructor
  · rintro ⟨_, _, ⟨rfl, rfl⟩, _, _, rfl, hgiven, rfl⟩
    exact ⟨hgiven, rfl⟩
  · rintro ⟨hgiven, rfl⟩
    exact ⟨before, before, ⟨rfl, rfl⟩, ⟨⟩, _, rfl, hgiven, rfl⟩

/-! ## Evaluations with the same results -/

/-- Two evaluations give the same results and then lead to the same worlds; they
may fail differently. -/
def SameYields (left right : Eval Result) : Prop :=
  ∀ before result after,
    left.Yields before result after ↔ right.Yields before result after

namespace SameYields

@[refl]
theorem refl (evaluation : Eval Result) : SameYields evaluation evaluation :=
  fun _ _ _ => Iff.rfl

@[symm]
theorem symm {left right : Eval Result} (hsame : SameYields left right) :
    SameYields right left :=
  fun before result after => (hsame before result after).symm

theorem trans {first second third : Eval Result} (hleft : SameYields first second)
    (hright : SameYields second third) : SameYields first third :=
  fun before result after =>
    (hleft before result after).trans (hright before result after)

theorem bind {left right : Eval Result} {leftNext rightNext : Result → Eval Other}
    (hfirst : SameYields left right)
    (hnext : ∀ result, SameYields (leftNext result) (rightNext result)) :
    SameYields (left >>= leftNext) (right >>= rightNext) := by
  intro before result after
  rw [yields_bind, yields_bind]
  constructor
  · rintro ⟨given, between, hgiven, hrest⟩
    exact ⟨given, between, (hfirst _ _ _).mp hgiven, (hnext _ _ _ _).mp hrest⟩
  · rintro ⟨given, between, hgiven, hrest⟩
    exact ⟨given, between, (hfirst _ _ _).mpr hgiven, (hnext _ _ _ _).mpr hrest⟩

/-- Two evaluations that give no result have the same results, whatever happens
before the second one. -/
theorem of_never {left right : Eval Result}
    (hleft : ∀ before result after, ¬ left.Yields before result after)
    (hright : ∀ before result after, ¬ right.Yields before result after) :
    SameYields left right :=
  fun before result after =>
    iff_of_false (hleft before result after) (hright before result after)

end SameYields

end Eval

end Patchwork
