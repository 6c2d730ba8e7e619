import Patchwork.Proofs.Mod.Failures
import Patchwork.Proofs.Mod.FieldValues

/-!
# Texts written into fields

A script writes the texts of its values into fields.  A text that cannot be stored is
refused by the mod, whatever it is, unless the field holds integers and the text is the
numeral of an infinite number.
-/

namespace Patchwork

/-- A fault that a mod refuses a change with. -/
inductive Fault.IsStore : Fault → Prop
  | store (cause : StoreFault) : IsStore (.store cause)

/-- What is known of the values of a type is known of what a text becomes, which is refused
otherwise, unless it is an infinite number where an integer is wanted. -/
theorem FieldType.ends_convert_iff {type : FieldType} {gives : Plain → Prop}
    (hgives : ∀ value, of? value = some type → gives value) (text : String) :
    Ends gives Fault.IsStore (type.convert text) ↔ ¬ (type = .int ∧ IsInfinite text) := by
  constructor
  · rintro hends ⟨rfl, htext⟩
    rw [convert_int_of_isInfinite htext] at hends
    obtain _ | ⟨⟨⟩⟩ := hends
  · intro hfits
    have hends := ends_convert type text
    generalize type.convert text = outcome at hends ⊢
    cases hends with
    | ok hvalue => exact .ok (hgives _ hvalue)
    | error hfault =>
      cases hfault with
      | refused cause => exact .error (.store cause)
      | overflow htype htext => exact absurd ⟨htype, htext⟩ hfits

namespace Work

variable {Result Other : Type} {work : Work Result} {next : Result → Work Other}

/-- An operation on a mod gives a result, or the mod refuses it. -/
def GivesOrRefuses (work : Work Result) : Prop :=
  ∀ before, Ends (fun _ => True) Fault.IsStore (work.run before).1

theorem Succeeds.givesOrRefuses (hsucceeds : work.Succeeds) : work.GivesOrRefuses := by
  intro before
  obtain ⟨result, hresult⟩ := hsucceeds before
  rw [hresult]
  exact .ok trivial

theorem GivesOrRefuses.bind (hwork : work.GivesOrRefuses)
    (hnext : ∀ result, (next result).GivesOrRefuses) : (work >>= next).GivesOrRefuses := by
  intro before
  have hfirst := hwork before
  rw [Agree.Computations.run_bind]
  cases hran : work.run before with
  | mk outcome between =>
    rw [hran] at hfirst
    cases hfirst with
    | ok _ => exact hnext _ between
    | error hfault => exact .error hfault

theorem succeeds_get : (get : Work Workbench).Succeeds :=
  fun before => ⟨before, rfl⟩

theorem succeeds_mark (value : Plain) : (mark value).Succeeds := by
  intro before
  unfold mark
  split
  · exact ⟨_, rfl⟩
  · exact ⟨_, rfl⟩

theorem givesOrRefuses_ownVersion (ref : RecordRef) : (ownVersion ref).GivesOrRefuses := by
  unfold ownVersion
  refine succeeds_get.givesOrRefuses.bind fun bench => ?_
  dsimp only
  split
  · exact fun before => .error (.store _)
  · split
    · exact (succeeds_pure _).givesOrRefuses
    · exact ((succeeds_append _).bind fun own =>
        (succeeds_modify _).bind fun _ => succeeds_pure own).givesOrRefuses

theorem givesOrRefuses_write (ref : RecordRef) (edit : Record → Record) :
    (write ref edit).GivesOrRefuses := by
  unfold write
  refine (givesOrRefuses_ownVersion ref).bind fun own =>
    (succeeds_modify _).givesOrRefuses.bind fun _ => ?_
  split
  · exact (succeeds_modify _).givesOrRefuses
  · exact (succeeds_pure _).givesOrRefuses

/-- Only the conversion of the text can fail with something else than a refusal. -/
theorem ends_writeConverted_iff (ref : RecordRef) (name : String) (outcome : Except Fault Plain)
    (before : Workbench) :
    Ends (fun _ => True) Fault.IsStore
        ((do
          let value ← mark (← (liftM outcome : Work Plain))
          write ref fun target => target.setField name value : Work Unit).run before).1 ↔
      Ends (fun _ => True) Fault.IsStore outcome := by
  cases outcome with
  | error fault =>
    constructor
    · rintro (_ | hfault)
      exact .error hfault
    · rintro (_ | hfault)
      exact .error hfault
  | ok value =>
    refine iff_of_true ?_ (.ok trivial)
    exact ((succeeds_mark value).givesOrRefuses.bind fun _ => givesOrRefuses_write ref _) before

theorem ends_setField_iff (ref : RecordRef) (name text : String) (before : Workbench) :
    Ends (fun _ => True) Fault.IsStore ((setField ref name text).run before).1 ↔
      ¬ ((∃ number, (before.pool.get ref).field? name = some (.int number)) ∧
        FieldType.IsInfinite text) := by
  have hread : (record ref).run before = (.ok (before.pool.get ref), before) := rfl
  rw [setField, Agree.Computations.run_bind, hread]
  dsimp only
  cases (before.pool.get ref).field? name with
  | none =>
    refine iff_of_true (.error (.store _)) ?_
    rintro ⟨⟨number, hnumber⟩, -⟩
    cases hnumber
  | some current =>
    have htype : (∃ number, some current = some (Plain.int number)) ↔
        (FieldType.of? current).getD .text = .int := by
      cases current <;> simp [FieldType.of?]
    rw [ends_writeConverted_iff, htype]
    exact FieldType.ends_convert_iff (fun _ _ => trivial) text

theorem ends_forceSetField_iff (ref : RecordRef) (name text declared : String)
    (before : Workbench) :
    Ends (fun _ => True) Fault.IsStore ((forceSetField ref name text declared).run before).1 ↔
      ¬ (FieldType.declared? declared = some .int ∧ FieldType.IsInfinite text) := by
  unfold forceSetField
  cases htype : FieldType.declared? declared with
  | none =>
    refine iff_of_true (.error (.store _)) ?_
    rintro ⟨hint, -⟩
    cases hint
  | some type =>
    dsimp only
    rw [ends_writeConverted_iff, Option.some.injEq]
    exact FieldType.ends_convert_iff (fun _ _ => trivial) text

end Work

end Patchwork
