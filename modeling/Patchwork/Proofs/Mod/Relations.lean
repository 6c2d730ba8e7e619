import Patchwork.Evaluation.Procedures
import Patchwork.Proofs.Mod.Yields

/-!
# Calls that relate a mod to a later one

The operations of the store are put together from reads, notes and writes.  So whatever
relation between a mod and a later one holds of doing nothing, is passed on from step to
step and holds of the writes, holds of the operations, whether they give a result or
not, and of the rewriting of links with transformers that keep to it.
-/

namespace Patchwork

/-- A relation between a mod with its pool and a later mod with a later pool. -/
abbrev StoreRelation := Pool → Mod → Pool → Mod → Prop

namespace StoreRelation

/-- Doing nothing is in the relation, and so is one thing after the other. -/
structure IsPreorder (Rel : StoreRelation) : Prop where
  refl : ∀ pool mod, Rel pool mod pool mod
  trans : ∀ {pool mod later patched last final}, Rel pool mod later patched →
    Rel later patched last final → Rel pool mod last final

end StoreRelation

variable {Rel : StoreRelation} {Result Other : Type}

namespace Work

/-- An operation that gives a result leads to a related mod. -/
def Relates (Rel : StoreRelation) (work : Work Result) : Prop :=
  ∀ before result after, work.Yields before result after →
    Rel before.pool before.mod after.pool after.mod

/-- The writes of fields and links of a record lead to a related mod. -/
structure WritesRelate (Rel : StoreRelation) (ref : RecordRef) : Prop where
  field : ∀ name value, (write ref fun record => record.setField name value).Relates Rel
  link : ∀ link, (write ref fun record => record.setLink link).Relates Rel

theorem KeepsRecords.relates (hRel : Rel.IsPreorder) {work : Work Result}
    (hkeeps : work.KeepsRecords) : work.Relates Rel := by
  intro before result after hyields
  obtain ⟨hpool, hmod⟩ := hkeeps before result after hyields
  rw [hpool, hmod]
  exact hRel.refl _ _

theorem relates_throw (fault : Fault) : (throw fault : Work Result).Relates Rel :=
  fun _ _ _ hyields => absurd hyields not_yields_throw

theorem Relates.bind (hRel : Rel.IsPreorder) {work : Work Result} {next : Result → Work Other}
    (hwork : work.Relates Rel) (hnext : ∀ result, (next result).Relates Rel) :
    (work >>= next).Relates Rel := by
  intro before result after hyields
  obtain ⟨given, between, hfirst, hrest⟩ := yields_bind.mp hyields
  exact hRel.trans (hwork before given between hfirst) (hnext given between result after hrest)

theorem KeepsRecords.bind_relates (hRel : Rel.IsPreorder) {work : Work Result}
    {next : Result → Work Other} (hkeeps : work.KeepsRecords)
    (hnext : ∀ result, (next result).Relates Rel) : (work >>= next).Relates Rel :=
  (hkeeps.relates hRel).bind hRel hnext

theorem relates_setField (hRel : Rel.IsPreorder) {ref : RecordRef}
    (hwrites : WritesRelate Rel ref) (name text : String) : (setField ref name text).Relates Rel := by
  unfold setField
  refine (keepsRecords_record ref).bind_relates hRel fun record => ?_
  split
  · exact relates_throw _
  · refine (keepsRecords_lift _).bind_relates hRel fun converted => ?_
    exact (keepsRecords_mark converted).bind_relates hRel fun value => hwrites.field name value

theorem relates_forceSetField (hRel : Rel.IsPreorder) {ref : RecordRef}
    (hwrites : WritesRelate Rel ref) (name text declared : String) :
    (forceSetField ref name text declared).Relates Rel := by
  unfold forceSetField
  split
  · exact relates_throw _
  · refine (keepsRecords_lift _).bind_relates hRel fun converted => ?_
    exact (keepsRecords_mark converted).bind_relates hRel fun value => hwrites.field name value

theorem relates_addLink (hRel : Rel.IsPreorder) {ref : RecordRef}
    (hwrites : WritesRelate Rel ref) (source : RecordRef) (category : String)
    (payload : Option (List Int)) (forced : Bool) :
    (addLink ref source category payload forced).Relates Rel := by
  unfold addLink
  refine (keepsRecords_record ref).bind_relates hRel fun target => ?_
  refine (keepsRecords_record source).bind_relates hRel fun linked => ?_
  split
  · exact (keepsRecords_note _).relates hRel
  · exact hwrites.link _

end Work

/-! ## Calls from a run -/

/-- The mod being patched has become a related one. -/
def World.Relates (Rel : StoreRelation) (before after : World) : Prop :=
  ∀ mod, before.active = some mod →
    ∃ patched, after.active = some patched ∧ Rel before.pool mod after.pool patched

theorem World.Relates.refl (hRel : Rel.IsPreorder) (world : World) : world.Relates Rel world :=
  fun mod hmod => ⟨mod, hmod, hRel.refl _ _⟩

theorem World.Relates.trans (hRel : Rel.IsPreorder) {before between after : World}
    (hfirst : before.Relates Rel between) (hsecond : between.Relates Rel after) :
    before.Relates Rel after := by
  intro mod hmod
  obtain ⟨patched, hpatched, hstep⟩ := hfirst mod hmod
  obtain ⟨final, hfinal, hlast⟩ := hsecond patched hpatched
  exact ⟨final, hfinal, hRel.trans hstep hlast⟩

namespace Eval

/-- An evaluation leads to a related mod, whether it fails or not. -/
def Relates (Rel : StoreRelation) (evaluation : Eval Result) : Prop :=
  ∀ world : World, world.Relates Rel (evaluation.run world).2

theorem relates_pure (hRel : Rel.IsPreorder) (result : Result) :
    (pure result : Eval Result).Relates Rel :=
  fun world => World.Relates.refl hRel world

theorem Relates.bind (hRel : Rel.IsPreorder) {evaluation : Eval Result}
    {next : Result → Eval Other} (hfirst : evaluation.Relates Rel)
    (hnext : ∀ result, (next result).Relates Rel) : (evaluation >>= next).Relates Rel := by
  intro world
  have hbetween := hfirst world
  rw [run_bind]
  cases hrun : evaluation.run world with
  | mk outcome between =>
    rw [hrun] at hbetween
    cases outcome with
    | error fault => exact hbetween
    | ok result => exact hbetween.trans hRel (hnext result between)

/-- An operation on the mod being patched that fails changes nothing. -/
theorem onActive_cases (work : Work Result) (world : World) :
    ((onActive work).run world).2 = world ∨
      ∃ result, (onActive work).Yields world result ((onActive work).run world).2 := by
  have hget : (get : Eval World).run world = (.ok world, world) := rfl
  cases hmod : world.active with
  | none =>
    left
    rw [onActive, run_bind, requireActive, run_bind, hget]
    simp only [hmod]
    rfl
  | some mod =>
    cases hrun : work.run ⟨world.pool, mod, world.journal, world.marks⟩ with
    | mk outcome bench =>
      cases outcome with
      | error fault =>
        left
        rw [onActive, run_bind, requireActive, run_bind, hget]
        simp only [hmod]
        change (((get : Eval World) >>= _).run world).2 = world
        rw [run_bind, hget]
        simp only [hrun]
        rfl
      | ok result =>
        right
        have hyields : (onActive work).Yields world result { world with
            pool := bench.pool
            active := some bench.mod
            journal := bench.journal
            marks := bench.marks } := yields_onActive.mpr ⟨mod, bench, hmod, hrun, rfl⟩
        have hafter := congrArg Prod.snd hyields
        exact ⟨result, hafter ▸ hyields⟩

theorem relates_onActive (hRel : Rel.IsPreorder) {work : Work Result} (hwork : work.Relates Rel) :
    (onActive work).Relates Rel := by
  intro world
  obtain hsame | ⟨result, hyields⟩ := onActive_cases work world
  · rw [hsame]
    exact World.Relates.refl hRel world
  · generalize ((onActive work).run world).2 = after at hyields ⊢
    obtain ⟨mod, bench, hmod, hbench, rfl⟩ := yields_onActive.mp hyields
    intro other hother
    rw [hmod] at hother
    cases hother
    exact ⟨bench.mod, rfl, hwork _ _ _ hbench⟩

end Eval

namespace Procedure

theorem relates_transformPayload (hRel : Rel.IsPreorder) {transformers : List (Int → Eval Int)}
    (htransformers : ∀ transformer ∈ transformers, ∀ number,
      (transformer number).Relates Rel) (payload : List Int) :
    (transformPayload transformers payload).Relates Rel := by
  induction payload generalizing transformers with
  | nil =>
    rw [transformPayload.eq_1]
    exact Eval.relates_pure hRel []
  | cons number rest ih =>
    cases transformers with
    | nil => exact Eval.relates_pure hRel _
    | cons transformer others =>
      rw [transformPayload]
      refine (htransformers transformer List.mem_cons_self number).bind hRel fun transformed => ?_
      refine (ih fun other hother =>
        htransformers other (List.mem_cons_of_mem _ hother)).bind hRel fun more => ?_
      exact Eval.relates_pure hRel _

theorem relates_editLinks (hRel : Rel.IsPreorder) {ref : RecordRef}
    (hwrites : Work.WritesRelate Rel ref) {transformers : List (Int → Eval Int)}
    {accepts : List Int → Eval Bool}
    (htransformers : ∀ transformer ∈ transformers, ∀ number,
      (transformer number).Relates Rel)
    (haccepts : ∀ payload, (accepts payload).Relates Rel) (links : List Link) :
    (editLinks ref transformers accepts links).Relates Rel := by
  induction links with
  | nil => exact Eval.relates_pure hRel 0
  | cons link rest ih =>
    rw [editLinks]
    refine (haccepts link.payload).bind hRel fun accepted => ?_
    split
    · refine (relates_transformPayload hRel htransformers link.payload).bind hRel fun payload => ?_
      refine (Eval.relates_onActive hRel (hwrites.link _)).bind hRel fun _ => ?_
      exact ih.bind hRel fun _ => Eval.relates_pure hRel _
    · exact ih

theorem relates_editCategory (hRel : Rel.IsPreorder) {ref : RecordRef}
    (hwrites : Work.WritesRelate Rel ref) {category : String}
    {transformers : List (Int → Eval Int)} {accepts : List Int → Eval Bool}
    (htransformers : ∀ transformer ∈ transformers, ∀ number,
      (transformer number).Relates Rel)
    (haccepts : ∀ payload, (accepts payload).Relates Rel) :
    (editCategory ref category transformers accepts).Relates Rel := by
  have hrecord : (Eval.record ref).Relates Rel := fun world => World.Relates.refl hRel world
  exact hrecord.bind hRel fun record =>
    relates_editLinks hRel hwrites htransformers haccepts (record.linkList (some category))

end Procedure

end Patchwork
