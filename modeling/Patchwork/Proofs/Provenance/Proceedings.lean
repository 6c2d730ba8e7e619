import Patchwork.Proofs.Mod.StoreRuns
import Patchwork.Proofs.Provenance.Deeds

/-!
# Evaluations that proceed soundly

An evaluation proceeds soundly from a world if it goes on from there whether it fails or
not, if every result comes with a course whose deeds are about sound groups, and if the
result has a property of its own.  What is built from evaluations that proceed soundly
proceeds soundly.
-/

namespace Patchwork

/-! ## Quiet steps -/

namespace World

theorem Quiet.of_kept {before after : World} (hactive : after.active = before.active)
    (hkept : before.pool.KeptIn after.pool) (hreports : after.reports = before.reports) :
    before.Quiet after where
  onward := Onward.of_retains hkept.retains hactive
  active mod hmod :=
    ⟨mod, hactive.trans hmod, rfl, rfl, fun _ hown => Or.inl hown⟩
  links ref hheld := by rw [(hkept ref hheld).2]
  reports := hreports

theorem Quiet.refl (world : World) : world.Quiet world :=
  Quiet.of_kept rfl (Pool.KeptIn.refl _) rfl

/-- Only notices about other things than procedures are new. -/
theorem reports_append {before after : World} {notices : List Notice}
    (hjournal : after.journal.toList = before.journal.toList ++ notices)
    (hnotices : ∀ notice ∈ notices, notice.source ≠ .procedures) :
    after.reports = before.reports := by
  have hnone : notices.filter (fun notice => notice.source == .procedures) = [] := by
    simpa using hnotices
  rw [reports, hjournal, List.filter_append, hnone, List.append_nil, reports]

theorem reports_push {before after : World} {notice : Notice}
    (hjournal : after.journal = before.journal.push notice)
    (hsource : notice.source ≠ .procedures) : after.reports = before.reports := by
  have hlist : after.journal.toList = before.journal.toList ++ [notice] := by
    rw [hjournal, Array.toList_push]
  refine reports_append hlist fun other hother => ?_
  rw [List.mem_singleton.mp hother]
  exact hsource

end World

/-! ## Proceeding -/

namespace Eval

/-- From every world that `origin` leads to an evaluation goes on, and if it gives a
result, then with a course whose deeds are about sound groups, and what it gives has a
property. -/
structure Proceeds {Result : Type} (repository : Repository) (operands : Operands)
    (origin : World) (evaluation : Eval Result) (gives : World → Result → Prop) : Prop where
  onward : ∀ before, origin.Onward before → before.Onward (evaluation.run before).2
  course : ∀ before result after, origin.Onward before →
    evaluation.Yields before result after →
    gives after result ∧ ∃ deeds, Course operands evaluation before deeds result after ∧
      AllSound repository after (deeds.flatMap Deed.groups)

variable {Result Other Item : Type} {repository : Repository} {operands : Operands}
  {origin : World} {evaluation : Eval Result} {gives weaker : World → Result → Prop}
  {givesNext : World → Other → Prop}

theorem onward_bind {next : Result → Eval Other} {before : World}
    (hfirst : before.Onward (evaluation.run before).2)
    (hnext : ∀ result between, evaluation.Yields before result between →
      between.Onward ((next result).run between).2) :
    before.Onward ((evaluation >>= next).run before).2 := by
  rw [run_bind]
  cases hrun : evaluation.run before with
  | mk outcome between =>
    rw [hrun] at hfirst
    cases outcome with
    | error fault => exact hfirst
    | ok result => exact hfirst.trans (hnext result between hrun)

theorem Proceeds.onward_of_yields {before after : World} {result : Result}
    (hproceeds : evaluation.Proceeds repository operands origin gives)
    (honward : origin.Onward before) (hyields : evaluation.Yields before result after) :
    before.Onward after := by
  have hafter := hproceeds.onward before honward
  rwa [hyields] at hafter

theorem Proceeds.mono (hproceeds : evaluation.Proceeds repository operands origin gives)
    (hweaker : ∀ world result, origin.Onward world → gives world result → weaker world result) :
    evaluation.Proceeds repository operands origin weaker where
  onward := hproceeds.onward
  course before result after honward hyields := by
    obtain ⟨hgives, hcourse⟩ := hproceeds.course before result after honward hyields
    have hafter := hproceeds.onward_of_yields honward hyields
    exact ⟨hweaker after result (honward.trans hafter) hgives, hcourse⟩

theorem Proceeds.later {last : World}
    (hproceeds : evaluation.Proceeds repository operands origin gives)
    (honward : origin.Onward last) :
    evaluation.Proceeds repository operands last gives where
  onward before hbefore := hproceeds.onward before (honward.trans hbefore)
  course before result after hbefore :=
    hproceeds.course before result after (honward.trans hbefore)

theorem Proceeds.bind {next : Result → Eval Other}
    (hfirst : evaluation.Proceeds repository operands origin gives)
    (hnext : ∀ result between, origin.Onward between → gives between result →
      (next result).Proceeds repository operands between givesNext) :
    Proceeds repository operands origin (evaluation >>= next) givesNext where
  onward before honward := by
    refine onward_bind (hfirst.onward before honward) fun result between hyields => ?_
    obtain ⟨hgives, -⟩ := hfirst.course before result between honward hyields
    have hbetween := hfirst.onward_of_yields honward hyields
    exact (hnext result between (honward.trans hbetween) hgives).onward between
      (World.Onward.refl _)
  course before result after honward hyields := by
    obtain ⟨given, between, hgiven, hrest⟩ := yields_bind.mp hyields
    obtain ⟨hgives, first, hcourse, hsound⟩ :=
      hfirst.course before given between honward hgiven
    have hbetween := hfirst.onward_of_yields honward hgiven
    have hproceeds := hnext given between (honward.trans hbetween) hgives
    obtain ⟨hlast, second, hothers, hrestSound⟩ :=
      hproceeds.course between result after (World.Onward.refl _) hrest
    have hafter := hproceeds.onward_of_yields (World.Onward.refl _) hrest
    refine ⟨hlast, first ++ second, Course.bind hcourse hothers, ?_⟩
    rw [List.flatMap_append]
    exact (hsound.mono hafter).append hrestSound

/-- A step whose result has no property that the rest depends on. -/
theorem Proceeds.andThen {next : Result → Eval Other}
    (hfirst : evaluation.Proceeds repository operands origin gives)
    (hnext : ∀ result, (next result).Proceeds repository operands origin givesNext) :
    Proceeds repository operands origin (evaluation >>= next) givesNext :=
  hfirst.bind fun result _ honward _ => (hnext result).later honward

theorem proceeds_of_quiet
    (hquiet : ∀ before, origin.Onward before → before.Quiet (evaluation.run before).2)
    (hgives : ∀ before result after, origin.Onward before →
      evaluation.Yields before result after → gives after result) :
    evaluation.Proceeds repository operands origin gives where
  onward before honward := (hquiet before honward).onward
  course before result after honward hyields := by
    have hafter := hquiet before honward
    rw [hyields] at hafter
    exact ⟨hgives before result after honward hyields, [], Course.quiet hyields hafter,
      AllSound.nil _ _⟩

theorem proceeds_pure {result : Result}
    (hgives : ∀ world, origin.Onward world → gives world result) :
    (pure result : Eval Result).Proceeds repository operands origin gives := by
  refine proceeds_of_quiet (fun before _ => World.Quiet.refl before) ?_
  intro before given after honward hyields
  obtain ⟨rfl, rfl⟩ := yields_pure.mp hyields
  exact hgives before honward

theorem proceeds_throw (fault : Fault) :
    (throw fault : Eval Result).Proceeds repository operands origin gives :=
  proceeds_of_quiet (fun before _ => World.Quiet.refl before)
    fun _ _ _ _ hyields => absurd hyields not_yields_throw

theorem proceeds_fail (fault : EvaluationFault) :
    (fail fault : Eval Result).Proceeds repository operands origin gives :=
  proceeds_throw _

theorem proceeds_settle {outcome : Except Fault Result}
    (hgives : ∀ world result, origin.Onward world → outcome = .ok result → gives world result) :
    (settle outcome).Proceeds repository operands origin gives := by
  cases outcome with
  | error fault => exact proceeds_throw fault
  | ok result => exact proceeds_pure fun world honward => hgives world result honward rfl

theorem proceeds_get :
    (get : Eval World).Proceeds repository operands origin fun world result => result = world := by
  refine proceeds_of_quiet (fun before _ => World.Quiet.refl before) ?_
  intro before given after _ hyields
  obtain ⟨rfl, rfl⟩ := yields_get.mp hyields
  rfl

theorem proceeds_labelled {compute : Labels → Except Fault Result}
    (hgives : ∀ world result labels, origin.Onward world → compute labels = .ok result →
      gives world result) :
    (labelled compute).Proceeds repository operands origin gives := by
  refine proceeds_get.bind fun world between honward _ => ?_
  exact proceeds_settle fun last result hlast hresult =>
    hgives last result _ (honward.trans hlast) hresult

theorem proceeds_labels :
    labels.Proceeds repository operands origin fun _ _ => True :=
  proceeds_get.bind fun _ _ _ _ => proceeds_pure fun _ _ => trivial

theorem proceeds_record (ref : RecordRef) :
    (record ref).Proceeds repository operands origin fun _ _ => True :=
  proceeds_get.bind fun _ _ _ _ => proceeds_pure fun _ _ => trivial

/-- A change to nothing but the draws, the stop flag, the marks and the notices about other
things than procedures. -/
theorem proceeds_modify {change : World → World}
    (hactive : ∀ world, (change world).active = world.active)
    (hpool : ∀ world, (change world).pool = world.pool)
    (hreports : ∀ world, (change world).reports = world.reports) :
    (modify change : Eval PUnit).Proceeds repository operands origin fun _ _ => True :=
  proceeds_of_quiet
    (fun before _ => World.Quiet.of_kept (hactive before)
      (by rw [show ((modify change : Eval PUnit).run before).2.pool = before.pool from hpool before]
          exact Pool.KeptIn.refl _) (hreports before))
    fun _ _ _ _ _ => trivial

theorem proceeds_note (level : Level) {source : Source} (hsource : source ≠ .procedures)
    (text : String) : (note level source text).Proceeds repository operands origin
      fun _ _ => True :=
  proceeds_modify (fun _ => rfl) (fun _ => rfl) fun _ => World.reports_push rfl hsource

theorem proceeds_mapM {step : Item → Eval Other} {items : List Item}
    {holds : World → Other → Prop}
    (hholds : ∀ before after item, before.Onward after → holds before item → holds after item)
    (hstep : ∀ item ∈ items, (step item).Proceeds repository operands origin holds) :
    (items.mapM step).Proceeds repository operands origin
      fun world results => ∀ result ∈ results, holds world result := by
  induction items generalizing origin with
  | nil => exact proceeds_pure fun _ _ _ hresult => nomatch hresult
  | cons item rest ih =>
    rw [List.mapM_cons]
    refine (hstep item List.mem_cons_self).bind fun first between hbetween hfirst => ?_
    have hrest := ih fun other hother =>
      (hstep other (List.mem_cons_of_mem _ hother)).later hbetween
    refine hrest.bind fun others last hlast hothers => proceeds_pure fun world hworld => ?_
    intro result hresult
    rcases List.mem_cons.mp hresult with rfl | hresult
    · exact hholds _ _ _ (hlast.trans hworld) hfirst
    · exact hholds _ _ _ hworld (hothers result hresult)

theorem proceeds_forM {step : Item → Eval PUnit} {items : List Item}
    (hstep : ∀ item ∈ items, (step item).Proceeds repository operands origin fun _ _ => True) :
    (items.forM step).Proceeds repository operands origin fun _ _ => True := by
  induction items generalizing origin with
  | nil => exact proceeds_pure fun _ _ => trivial
  | cons item rest ih =>
    exact (hstep item List.mem_cons_self).bind fun _ between hbetween _ =>
      ih fun other hother => (hstep other (List.mem_cons_of_mem _ hother)).later hbetween

theorem proceeds_insideLambda (node : Node)
    (hproceeds : evaluation.Proceeds repository operands origin gives) :
    (insideLambda node evaluation).Proceeds repository operands origin gives where
  onward before honward := by
    have hafter := hproceeds.onward before honward
    rw [insideLambda, Agree.Computations.run_tryCatch]
    generalize evaluation.run before = ran at hafter ⊢
    obtain ⟨outcome, after⟩ := ran
    cases outcome with
    | ok result => exact hafter
    | error fault => cases fault <;> exact hafter
  course before result after honward hyields := by
    have hinner : evaluation.Yields before result after := by
      rw [Yields, insideLambda, Agree.Computations.run_tryCatch] at hyields
      rw [Yields]
      generalize evaluation.run before = ran at hyields ⊢
      obtain ⟨outcome, between⟩ := ran
      cases outcome with
      | ok given => exact hyields
      | error fault => cases fault <;> cases hyields
    obtain ⟨hgives, deeds, hcourse, hsound⟩ := hproceeds.course before result after honward hinner
    exact ⟨hgives, deeds, Course.inside node hcourse, hsound⟩

/-! ## The mod being patched -/

theorem onward_of_writes {work : Work Unit} {target : RecordRef} (hwork : work.WritesTo target)
    (world : World) : world.Onward ((onActive work).run world).2 := by
  obtain hsame | ⟨result, hyields⟩ := onActive_cases work world
  · rw [hsame]
    exact World.Onward.refl world
  · generalize ((onActive work).run world).2 = after at hyields ⊢
    obtain ⟨mod, bench, hmod, hbench, rfl⟩ := yields_onActive.mp hyields
    have hwrites := hwork _ _ _ hbench
    refine ⟨hwrites.retains, fun other hother => ⟨bench.mod, rfl, ?_⟩⟩
    obtain rfl := Option.some.inj (hmod.symm.trans hother)
    exact hwrites.onward

theorem proceeds_edit {work : Work Unit} {target : RecordRef} (hwork : work.Edits target)
    (htarget : target ∈ operands.targets) (hheld : origin.pool.Holds target) :
    (onActive work).Proceeds repository operands origin fun _ _ => True where
  onward before _ := onward_of_writes hwork.writesTo before
  course _ _ _ honward hyields :=
    ⟨trivial, [], Course.edit hwork htarget (honward.retains.holds target hheld) hyields,
      AllSound.nil _ _⟩

theorem proceeds_link {target source : RecordRef} (category : String)
    (payload : Option (List Int)) (forced : Bool) (htarget : target ∈ operands.targets)
    (hsource : source ∈ operands.sources) (hheld : origin.pool.Holds target) :
    (onActive (Work.addLink target source category payload forced)).Proceeds repository operands
      origin fun _ _ => True where
  onward before _ := onward_of_writes (Work.writesTo_addLink source category payload forced) before
  course _ _ _ honward hyields :=
    ⟨trivial, [.linked target source],
      Course.link htarget hsource (honward.retains.holds target hheld) hyields, AllSound.nil _ _⟩

end Eval

end Patchwork
