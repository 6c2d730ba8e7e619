import Patchwork.Proofs.Provenance.Evaluation

/-!
# Queries and extractions proceed soundly

A group query resolves to some of the merged records of the loaded mods, and an
extraction divides the records of a group in two.  The groups that come of either are
sound, whatever else the condition does.
-/

namespace Patchwork

open Eval

theorem Repository.source_missingNotice? {missing : List String} {notice : Notice}
    (hnotice : missingNotice? missing = some notice) : notice.source = .repository := by
  unfold missingNotice? at hnotice
  split at hnotice
  · cases hnotice
  · cases hnotice
    rfl

namespace Merge

theorem source_addIdentity {pool : Pool} {outcome : Outcome} (id : String)
    (versions : List Member)
    (hearlier : ∀ notice ∈ outcome.notices, notice.source = .merging) :
    ∀ notice ∈ (addIdentity pool outcome id versions).notices, notice.source = .merging := by
  unfold addIdentity
  split
  · exact hearlier
  · intro notice hnotice
    rcases List.mem_append.mp hnotice with hold | hlast
    · exact hearlier notice hold
    · rw [List.mem_singleton.mp hlast]
      rfl

theorem source_of_mem_notices (pool : Pool) (members : List Member) :
    ∀ notice ∈ (mergeAll pool members).notices, notice.source = .merging := by
  have hfold : ∀ (grouped : Entries String (List Member)) (outcome : Outcome),
      (∀ notice ∈ outcome.notices, notice.source = .merging) →
      ∀ notice ∈ (grouped.foldl
        (fun outcome entry => addIdentity pool outcome entry.1 entry.2) outcome).notices,
        notice.source = .merging := by
    intro grouped
    induction grouped with
    | nil => exact fun _ hearlier => hearlier
    | cons entry rest ih => exact fun _ hearlier => ih _ (source_addIdentity _ _ hearlier)
  exact hfold _ {} fun _ hmem => absurd hmem List.not_mem_nil

end Merge

variable {repository : Repository} {operands : Operands} {origin : World}

/-- Records that are put into the pool make up a sound group if those that are merged at
any point of the run do. -/
theorem proceeds_placed (operands : Operands) {outcomeOf : Pool → Merge.Outcome}
    (hnotices : ∀ pool, ∀ notice ∈ (outcomeOf pool).notices, notice.source = .merging)
    (hsound : ∀ before after : World, origin.Onward before →
      after.pool = ((outcomeOf before.pool).place before.pool).1 →
      ((outcomeOf before.pool).place before.pool).2.Sound repository after) :
    (do
      let pool := (← get).pool
      return (← Eval.place (outcomeOf pool), (outcomeOf pool).orphans) :
        Eval (Group × List String)).Proceeds repository operands origin
      fun world merged => merged.1.Sound repository world := by
  refine proceeds_of_quiet (fun before _ => ?_) fun before merged after honward hyields => ?_
  · refine World.Quiet.of_kept rfl (Merge.keptIn_place (outcomeOf before.pool) before.pool) ?_
    refine World.reports_append Array.toList_append fun notice hnotice => ?_
    rw [hnotices before.pool notice hnotice]
    exact Source.noConfusion
  · cases hyields
    exact hsound before _ honward rfl

/-- The group of merged records is sound. -/
theorem proceeds_mergedRecords (hloaded : repository.Loaded origin.pool)
    (selector kind : String) :
    (mergedRecords repository selector kind).Proceeds repository operands origin
      fun world merged => merged.1.Sound repository world := by
  have hplaced := proceeds_placed operands (fun pool => Merge.source_of_mem_notices pool
      (Repository.collect pool kind (repository.select selector).1))
    fun before after (honward : origin.Onward before) hpool =>
      Merge.sound_place (fun _ hmod => Repository.mem_of_mem_select hmod)
        (hloaded.mono honward.retains) rfl hpool
  unfold mergedRecords
  dsimp only
  cases hmissing : Repository.missingNotice? (repository.select selector).2 with
  | none => exact hplaced
  | some notice =>
    have hnotice : (modify fun world : World =>
        { world with journal := world.journal.push notice } : Eval PUnit).Proceeds repository
          operands origin fun _ _ => True :=
      proceeds_modify (fun _ => rfl) (fun _ => rfl) fun _ => World.reports_push rfl <| by
        rw [Repository.source_missingNotice? hmissing]
        exact Source.noConfusion
    exact hnotice.andThen fun _ => hplaced

section

variable {condition : RecordRef → Eval Bool}
  (hcondition : ∀ record, (condition record).Proceeds repository operands origin fun _ _ => True)

include hcondition

theorem proceeds_keepMatches (mode : SelectionMode) (members : List Member) :
    (keepMatches mode condition members).Proceeds repository operands origin
      fun _ kept => kept.Sublist members := by
  induction members with
  | nil => exact proceeds_pure fun _ _ => List.Sublist.refl []
  | cons member rest ih =>
    refine (hcondition member.record).andThen fun accepted => ?_
    cases accepted with
    | false => exact ih.mono fun _ _ _ hkept => hkept.cons member
    | true =>
      cases mode with
      | firstMatch => exact proceeds_pure fun _ _ => (List.nil_sublist rest).cons_cons member
      | allMatches =>
        exact ih.bind fun kept _ _ hkept => proceeds_pure fun _ _ => hkept.cons_cons member

theorem proceeds_splitMembers (members : List Member) :
    (splitMembers condition members).Proceeds repository operands origin
      fun _ split => split.1.Sublist members ∧ split.2.Sublist members := by
  induction members with
  | nil => exact proceeds_pure fun _ _ => ⟨List.Sublist.refl [], List.Sublist.refl []⟩
  | cons member rest ih =>
    refine (hcondition member.record).andThen fun accepted => ?_
    refine ih.bind fun split _ _ hsplit => proceeds_pure fun _ _ => ?_
    cases accepted with
    | false => exact ⟨hsplit.1.cons_cons member, hsplit.2.cons member⟩
    | true => exact ⟨hsplit.1.cons member, hsplit.2.cons_cons member⟩

theorem proceeds_resolveGroup (hloaded : repository.Loaded origin.pool)
    (selector kind : String) (mode : SelectionMode) :
    (resolveGroup repository selector kind condition mode).Proceeds repository operands origin
      fun world group => group.Sound repository world := by
  refine (proceeds_mergedRecords hloaded selector kind).bind
    fun merged between hbetween hmerged => ?_
  have hkept := proceeds_keepMatches (fun record => (hcondition record).later hbetween) mode
    merged.1.members
  refine hkept.bind fun kept last hlast hsublist => ?_
  refine (proceeds_note .debug Source.noConfusion _).andThen fun _ => ?_
  exact proceeds_pure fun world honward => (hmerged.mono (hlast.trans honward)).sublist hsublist

end

end Patchwork
