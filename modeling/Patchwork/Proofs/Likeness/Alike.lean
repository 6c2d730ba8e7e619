import Mathlib.Data.List.Forall2
import Mathlib.Logic.Relation
import Patchwork.Proofs.Evaluation.Substitution

/-!
# Evaluations that come out alike

Two evaluations come out alike if from every world they lead to the same world and
related results, or both fail.  What they fail with may differ.  Evaluations built from
steps that come out alike do so too.
-/

namespace Patchwork

namespace Eval

variable {Left Right Other Left' Right' : Type}

/-- From every world, two evaluations give related results and lead to the same world, or
both give none. -/
structure Alike (related : Left → Right → Prop) (left : Eval Left) (right : Eval Right) :
    Prop where
  forth : ∀ before result after, left.Yields before result after →
    ∃ other, right.Yields before other after ∧ related result other
  back : ∀ before other after, right.Yields before other after →
    ∃ result, left.Yields before result after ∧ related result other

namespace Alike

variable {related : Left → Right → Prop} {relatedNext : Left' → Right' → Prop}
variable {left : Eval Left} {right : Eval Right}

theorem of_pure {result : Left} {other : Right} (hrelated : related result other) :
    Alike related (pure result) (pure other) where
  forth before given after hyields := by
    obtain ⟨rfl, rfl⟩ := yields_pure.mp hyields
    exact ⟨other, yields_pure.mpr ⟨rfl, rfl⟩, hrelated⟩
  back before given after hyields := by
    obtain ⟨rfl, rfl⟩ := yields_pure.mp hyields
    exact ⟨result, yields_pure.mpr ⟨rfl, rfl⟩, hrelated⟩

theorem of_never (hleft : ∀ before result after, ¬ left.Yields before result after)
    (hright : ∀ before result after, ¬ right.Yields before result after) :
    Alike related left right where
  forth before result after hyields := absurd hyields (hleft before result after)
  back before result after hyields := absurd hyields (hright before result after)

theorem of_throw (fault fault' : Fault) : Alike related (throw fault) (throw fault') :=
  of_never (fun _ _ _ => not_yields_throw) fun _ _ _ => not_yields_throw

theorem of_fail (fault fault' : EvaluationFault) :
    Alike related (fail fault : Eval Left) (fail fault' : Eval Right) :=
  of_throw _ _

theorem of_sameYields {evaluation evaluation' : Eval Left}
    (hsame : SameYields evaluation evaluation') : Alike Eq evaluation evaluation' where
  forth before result after hyields := ⟨result, (hsame before result after).mp hyields, rfl⟩
  back before result after hyields := ⟨result, (hsame before result after).mpr hyields, rfl⟩

theorem refl (evaluation : Eval Left) : Alike Eq evaluation evaluation :=
  of_sameYields (SameYields.refl evaluation)

theorem mono {weaker : Left → Right → Prop} (halike : Alike related left right)
    (hweaker : ∀ result other, related result other → weaker result other) :
    Alike weaker left right where
  forth before result after hyields := by
    obtain ⟨other, hother, hrelated⟩ := halike.forth before result after hyields
    exact ⟨other, hother, hweaker result other hrelated⟩
  back before other after hyields := by
    obtain ⟨result, hresult, hrelated⟩ := halike.back before other after hyields
    exact ⟨result, hresult, hweaker result other hrelated⟩

theorem symm (halike : Alike related left right) : Alike (flip related) right left where
  forth := halike.back
  back := halike.forth

theorem trans {relatedOther : Right → Other → Prop} {third : Eval Other}
    (hfirst : Alike related left right) (hsecond : Alike relatedOther right third) :
    Alike (Relation.Comp related relatedOther) left third where
  forth before result after hyields := by
    obtain ⟨middle, hmiddle, hrelated⟩ := hfirst.forth before result after hyields
    obtain ⟨other, hother, hnext⟩ := hsecond.forth before middle after hmiddle
    exact ⟨other, hother, middle, hrelated, hnext⟩
  back before other after hyields := by
    obtain ⟨middle, hmiddle, hrelated⟩ := hsecond.back before other after hyields
    obtain ⟨result, hresult, hfirst⟩ := hfirst.back before middle after hmiddle
    exact ⟨result, hresult, middle, hfirst, hrelated⟩

theorem congr {left' : Eval Left} {right' : Eval Right} (halike : Alike related left' right')
    (hleft : SameYields left left') (hright : SameYields right right') :
    Alike related left right where
  forth before result after hyields := by
    obtain ⟨other, hother, hrelated⟩ := halike.forth _ _ _ ((hleft _ _ _).mp hyields)
    exact ⟨other, (hright _ _ _).mpr hother, hrelated⟩
  back before other after hyields := by
    obtain ⟨result, hresult, hrelated⟩ := halike.back _ _ _ ((hright _ _ _).mp hyields)
    exact ⟨result, (hleft _ _ _).mpr hresult, hrelated⟩

theorem of_bind {next : Left → Eval Left'} {next' : Right → Eval Right'}
    (hfirst : Alike related left right)
    (hnext : ∀ result other, related result other →
      Alike relatedNext (next result) (next' other)) :
    Alike relatedNext (left >>= next) (right >>= next') where
  forth before result after hyields := by
    obtain ⟨given, between, hgiven, hrest⟩ := yields_bind.mp hyields
    obtain ⟨other, hother, hrelated⟩ := hfirst.forth before given between hgiven
    obtain ⟨last, hlast, hlasts⟩ := (hnext given other hrelated).forth between result after hrest
    exact ⟨last, yields_bind.mpr ⟨other, between, hother, hlast⟩, hlasts⟩
  back before result after hyields := by
    obtain ⟨given, between, hgiven, hrest⟩ := yields_bind.mp hyields
    obtain ⟨other, hother, hrelated⟩ := hfirst.back before given between hgiven
    obtain ⟨last, hlast, hlasts⟩ := (hnext other given hrelated).back between result after hrest
    exact ⟨last, yields_bind.mpr ⟨other, between, hother, hlast⟩, hlasts⟩

/-- A first step that is the same in both evaluations. -/
theorem of_same_bind {evaluation : Eval Other} {next : Other → Eval Left}
    {next' : Other → Eval Right} (hnext : ∀ result, Alike related (next result) (next' result)) :
    Alike related (evaluation >>= next) (evaluation >>= next') := by
  refine (refl evaluation).of_bind fun result other heq => ?_
  subst heq
  exact hnext result

theorem of_bind_eq {evaluation evaluation' : Eval Other} {next : Other → Eval Left}
    {next' : Other → Eval Right} (hfirst : Alike Eq evaluation evaluation')
    (hnext : ∀ result, Alike related (next result) (next' result)) :
    Alike related (evaluation >>= next) (evaluation' >>= next') := by
  refine hfirst.of_bind fun result other heq => ?_
  subst heq
  exact hnext result

theorem of_fail_bind (fault fault' : EvaluationFault) (next : Other → Eval Left)
    (next' : Other → Eval Right) :
    Alike related (fail fault >>= next) (fail fault' >>= next') := by
  have hfaults : Alike (fun _ _ : Other => False) (fail fault) (fail fault') :=
    of_fail fault fault'
  exact hfaults.of_bind fun _ _ hfalse => hfalse.elim

theorem of_settle {outcome : Except Fault Left} {outcome' : Except Fault Right}
    (houtcomes : Option.Rel related outcome.toOption outcome'.toOption) :
    Alike related (settle outcome) (settle outcome') := by
  cases outcome with
  | error fault =>
    cases outcome' with
    | error fault' => exact of_throw fault fault'
    | ok other => cases houtcomes
  | ok result =>
    cases outcome' with
    | error fault' => cases houtcomes
    | ok other =>
      cases houtcomes with
      | some hrelated => exact of_pure hrelated

theorem of_labelled {compute : Labels → Except Fault Left}
    {compute' : Labels → Except Fault Right}
    (hcompute : ∀ labels, Option.Rel related (compute labels).toOption
      (compute' labels).toOption) :
    Alike related (labelled compute) (labelled compute') :=
  of_same_bind fun labels => of_settle (hcompute labels)

theorem of_labelled_eq {compute compute' : Labels → Except Fault Left}
    (hcompute : ∀ labels, compute' labels = compute labels) :
    Alike Eq (labelled compute) (labelled compute') := by
  rw [funext hcompute]
  exact refl _

theorem of_insideLambda {node node' : Node} (halike : Alike related left right) :
    Alike related (insideLambda node left) (insideLambda node' right) :=
  halike.congr (sameYields_insideLambda node left) (sameYields_insideLambda node' right)

theorem of_mapM {Item Item' : Type} {items : List Item} {items' : List Item'}
    {relatedItems : Item → Item' → Prop} {step : Item → Eval Left} {step' : Item' → Eval Right}
    (hitems : List.Forall₂ relatedItems items items')
    (hstep : ∀ item item', relatedItems item item' → Alike related (step item) (step' item')) :
    Alike (List.Forall₂ related) (items.mapM step) (items'.mapM step') := by
  induction hitems with
  | nil => exact of_pure List.Forall₂.nil
  | cons hitem _ ih =>
    rw [List.mapM_cons, List.mapM_cons]
    exact (hstep _ _ hitem).of_bind fun _ _ hfirst =>
      ih.of_bind fun _ _ hrest => of_pure (List.Forall₂.cons hfirst hrest)

theorem of_forM {Item : Type} {items : List Item} {step step' : Item → Eval PUnit}
    (hstep : ∀ item, Alike Eq (step item) (step' item)) :
    Alike Eq (items.forM step) (items.forM step') := by
  induction items with
  | nil => exact of_pure rfl
  | cons item rest ih => exact (hstep item).of_bind_eq fun _ => ih

end Alike

end Eval

end Patchwork
