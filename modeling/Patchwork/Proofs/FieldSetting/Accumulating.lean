import Patchwork.Proofs.FieldSetting.Together

/-!
# Fields that sources are folded into

A field of a target is set from sources one after the other.  Each step calls a lambda with the
value so far and with the source as its record, and converts what the result is displayed as.  The
steps can be made in the state before the procedure as well, since nothing that the lambda reads is
written; all that differs is which marks values are given that are not a number.
-/

namespace Patchwork

open Agree Eval

/-! ## What is written last -/

/-- Of edits that write one field the last one counts. -/
theorem Record.exists_edited_eq_setField {field : String} {edits : List Record.Edit}
    (hfield : ∀ edit ∈ edits, ∃ value, edit = .field field value) (hsome : edits ≠ []) :
    ∃ written, ∀ record : Record, record.edited edits = record.setField field written := by
  induction edits with
  | nil => exact absurd rfl hsome
  | cons edit rest ih =>
    obtain ⟨⟨first, rfl⟩, hrest⟩ := List.forall_mem_cons.mp hfield
    by_cases hlast : rest = []
    · exact ⟨first, fun record => by rw [hlast]; rfl⟩
    · obtain ⟨written, hwritten⟩ := ih hrest hlast
      refine ⟨written, fun record => ?_⟩
      exact (hwritten (record.setField field first)).trans (record.setField_setField field _ _)

/-! ## The step of the fold -/

/-- A mark that a value is given by the mod being patched. -/
theorem Eval.yields_onActive_mark {before after : World} {mod : Mod}
    (hmod : before.active = some mod) {given value : Plain} :
    (onActive (Work.mark given)).Yields before value after ↔
      (given.marked before.marks).1 = value ∧
        { before with marks := (given.marked before.marks).2 } = after := by
  rw [yields_onActive]
  constructor
  · rintro ⟨other, bench, hother, hmark, rfl⟩
    obtain ⟨hvalue, rfl⟩ := Work.yields_mark.mp hmark
    exact ⟨hvalue, by rw [← hother]⟩
  · rintro ⟨hvalue, rfl⟩
    exact ⟨mod, _, hmod, Work.yields_mark.mpr ⟨hvalue, rfl⟩, by rw [← hmod]⟩

namespace Procedure

/-- The text of what a lambda makes of a value when its record is a source. -/
def textFromSource (setting : Setting) (parameter : String) (body : Node) (current : Plain)
    (source : RecordRef) : Eval String := do
  let identity ← nextMark
  let value ← settle (Value.ofPlain current)
  let result ← (Closure.mk identity parameter body (some source)).call setting [value]
  return result.display (← labels)

/-- The value of a field after a source: the text of what the lambda makes of the value so far,
converted to the type of the value so far. -/
def valueFromSource (setting : Setting) (parameter : String) (body : Node) (current : Plain)
    (source : RecordRef) : Eval Plain := do
  let text ← textFromSource setting parameter body current source
  let given ← settle (((FieldType.of? current).getD .text).convert text)
  onActive (Work.mark given)

/-- The arguments of a call that sets a field from sources. -/
def fromSources (setting : Setting) (sources : Group) (field parameter : String) (body : Node) :
    List Argument :=
  argumentsWith (deeperAt setting nestingLimit) setting
    [.group sources, .literal (.string field), .lambda parameter body]

/-- The work on a target and a source: a text is made of the value that the field has, and it is
written. -/
theorem yields_onPair {setting : Setting} {sources : Group} {field parameter : String} {body : Node}
    {target source : RecordRef} {before after : World} {result : Unit}
    (hyields : (Procedure.setFieldFromOther.onPair (deeperAt setting nestingLimit).call
      (fromSources setting sources field parameter body) target source).Yields before result
        after) :
    ∃ current text between, (before.pool.get target).field? field = some current ∧
      (textFromSource setting parameter body current source).Yields before text between ∧
      (onActive (Work.setField target field text)).Yields between result after := by
  unfold onPair setFromSource at hyields
  obtain ⟨_, _, hnamed, hyields⟩ := yields_bind.mp hyields
  obtain ⟨rfl, rfl⟩ := yields_pure.mp hnamed
  obtain ⟨_, _, hname, hyields⟩ := yields_bind.mp hyields
  obtain ⟨hname, rfl⟩ := yields_labelled.mp hname
  cases hname
  obtain ⟨_, _, hrecord, hyields⟩ := yields_bind.mp hyields
  obtain ⟨rfl, rfl⟩ := yields_record.mp hrecord
  cases hcurrent : (before.pool.get target).field? field with
  | none =>
    have hmissing : (before.pool.get target).hasField field = false := by
      rw [Record.hasField, hcurrent, Option.isSome_none]
    simp [hmissing, yields_bind] at hyields
  | some current =>
    have hfound : (before.pool.get target).hasField field = true := by
      rw [Record.hasField, hcurrent, Option.isSome_some]
    simp only [hfound, Bool.not_true, Bool.false_eq_true, if_false] at hyields
    obtain ⟨_, _, hclosure, hyields⟩ := yields_bind.mp hyields
    obtain ⟨identity, marked, hidentity, hclosure⟩ := yields_bind.mp hclosure
    obtain ⟨rfl, rfl⟩ := yields_pure.mp hclosure
    obtain ⟨_, _, hclosure, hyields⟩ := yields_bind.mp hyields
    obtain ⟨hclosure, rfl⟩ := yields_labelled.mp hclosure
    cases hclosure
    obtain ⟨_, _, hrecord, hyields⟩ := yields_bind.mp hyields
    obtain ⟨rfl, rfl⟩ := yields_record.mp hrecord
    have hsame : marked.pool = before.pool := by rw [← (yields_nextMark.mp hidentity).2]
    rw [hsame, hcurrent, Option.getD_some] at hyields
    obtain ⟨value, between, hvalue, hyields⟩ := yields_bind.mp hyields
    obtain ⟨shown, called, hcalled, hyields⟩ := yields_bind.mp hyields
    obtain ⟨_, _, hlabels, hwrite⟩ := yields_bind.mp hyields
    obtain ⟨rfl, rfl⟩ := yields_labels.mp hlabels
    refine ⟨current, _, called, rfl, ?_, hwrite⟩
    refine yields_bind.mpr ⟨identity, marked, hidentity, ?_⟩
    refine yields_bind.mpr ⟨value, between, hvalue, ?_⟩
    refine yields_bind.mpr ⟨shown, called, hcalled, ?_⟩
    exact yields_bind.mpr ⟨_, called, yields_labels.mpr ⟨rfl, rfl⟩, yields_pure.mpr ⟨rfl, rfl⟩⟩

end Procedure

/-! ## The step alongside -/

/-- The marks that are given from one point on, when others have been given before a later one. -/
def World.remarking (before : World) (start given : Nat) : Nat :=
  if given ≤ before.marks then given else given + (start - before.marks)

/-- A record that is none of the targets of edits, nor a version of one. -/
def World.Aside (world : World) (refs : List RecordRef) (ref : RecordRef) : Prop :=
  world.pool.Holds ref ∧
    ∀ target ∈ refs, (world.pool.get target).id ≠ (world.pool.get ref).id

theorem World.Amended.get_aside {refs : List RecordRef} {edits : RecordRef → List Record.Edit}
    {before after : World} {ref : RecordRef} (hamended : World.Amended refs edits before after)
    (haside : before.Aside refs ref) : after.pool.get ref = before.pool.get ref := by
  obtain ⟨mod, patched, -, -, hamended⟩ := hamended
  obtain ⟨hheld, hothers⟩ := haside
  refine hamended.rest ref hheld (fun htarget => hothers ref htarget rfl) ?_
  intro target htarget hfind
  exact hothers target htarget (Mod.mem_of_find? hfind).2.symm

theorem World.FieldsWritten.follows_aside {refs : List RecordRef}
    {edits : RecordRef → List Record.Edit} {before during : World} {ref : RecordRef}
    (hwritten : World.FieldsWritten refs edits before during) (haside : before.Aside refs ref) :
    before.Follows (some ref) during := by
  refine hwritten.follows ?_ ?_
  · rintro _ ⟨⟩
    exact haside.1
  · rintro _ ⟨⟩
    exact congrArg Record.fields (hwritten.amended.get_aside haside)

section

variable {state : Patcher} {during : World} {source : RecordRef} {body : Node}

theorem Eval.alongside_nextMark {relocation : Relocation} {before during : World} :
    Computations (World.Alongside relocation before during)
      (fun given given' => given' = relocation.mark given) nextMark nextMark where
  run := by
    rintro _ _ ⟨marks, later, hmarks⟩
    refine ⟨.ok (hmarks 0).symm, .marked (marks + 1) (later + 1) fun offset => ?_⟩
    have hnext := hmarks (1 + offset)
    rwa [← Nat.add_assoc, ← Nat.add_assoc] at hnext

theorem Eval.alongside_labels {relocation : Relocation} {before during : World} :
    Computations (World.Alongside relocation before during)
      (fun labels labels' => labels = before.pool.label ∧ labels' = during.pool.label) labels
      labels where
  run := by
    rintro _ _ ⟨marks, later, hmarks⟩
    exact ⟨.ok ⟨rfl, rfl⟩, .marked marks later hmarks⟩

/-- A lambda makes the same text of corresponding values at both points. -/
theorem Procedure.alongside_textFromSource (parameter : String) (hgrounded : state.Grounded)
    (hfollows : state.world.Follows (some source) during) (hbody : body.QuietAt state)
    (current : Plain) :
    Computations (World.Alongside (state.world.movedTo during).relocation state.world during) Eq
      (textFromSource state.setting parameter body current source)
      (textFromSource state.setting parameter body
        (current.remark (state.world.movedTo during).relocation.mark) source) := by
  refine alongside_nextMark.of_bind fun identity identity' hidentity => ?_
  refine (agree_settle (Value.ofPlain_relocate current)).of_bind fun value value' hvalues => ?_
  refine (Closure.alongside_call hgrounded hfollows hbody hidentity hvalues).of_bind
    fun shown shown' hshown => ?_
  refine alongside_labels.of_bind fun labels labels' hlabels => Computations.of_pure ?_
  rw [hlabels.1, hlabels.2]
  exact (World.Follows.display_eq hgrounded hfollows hshown).symm

end

/-! ## One target -/

theorem Procedure.marks_le_of_textFromSource {setting : Setting} {parameter : String} {body : Node}
    {current : Plain} {source : RecordRef} {before after : World} {text : String}
    (hyields : (textFromSource setting parameter body current source).Yields before text after) :
    before.marks ≤ after.marks := by
  have hstays : (textFromSource setting parameter body current source).Stays Horizon.unmoved
      fun _ => True := by
    refine stays_nextMark.andThen fun identity => (stays_settled _).andThen fun value => ?_
    refine ((stayingDeeper_deeperAt setting.environment.within_unmoved nestingLimit).call _
      _).andThen fun shown => ?_
    exact stays_labels.andThen fun _ => stays_pure trivial
  exact hstays.marks_le hyields

/-- Marks that are given at corresponding points correspond. -/
theorem Plain.marked_remark {mark : Nat → Nat} {given : Plain} (hgiven : given.remark mark = given)
    {marks later : Nat} (hmarks : ∀ offset, mark (marks + 1 + offset) = later + 1 + offset) :
    (given.marked later).1 = (given.marked marks).1.remark mark ∧ ∀ offset,
      mark ((given.marked marks).2 + 1 + offset) = (given.marked later).2 + 1 + offset := by
  by_cases hnan : given = .float (.nan 0)
  · subst hnan
    refine ⟨congrArg (fun mark => Plain.float (.nan mark)) (hmarks 0).symm, fun offset => ?_⟩
    have hnext := hmarks (1 + offset)
    rwa [← Nat.add_assoc, ← Nat.add_assoc] at hnext
  · rw [marked_of_ne hnan, marked_of_ne hnan]
    exact ⟨hgiven.symm, hmarks⟩

namespace Procedure

/-- How far a field of a target is.  The value so far is that of a fold in the state before the
procedure, in which some marks have been given; the field has it too, but for the marks that are
given since the turn of the target started. -/
structure Accumulated (state : Patcher) (refs : List RecordRef)
    (edits : RecordRef → List Record.Edit) (target : RecordRef) (field : String)
    (start marks : Nat) (value : Plain) (during : World) : Prop where
  written : World.FieldsWritten refs edits state.world during
  ofField : ∀ edit ∈ edits target, ∃ value, edit = .field field value
  current : (during.pool.get target).field? field =
    some (value.remark (state.world.remarking start))
  marks : ∀ offset, state.world.remarking start (marks + 1 + offset) = during.marks + 1 + offset

section

variable {state : Patcher} {refs : List RecordRef} {edits : RecordRef → List Record.Edit}
  {target : RecordRef} {sources : Group} {field parameter : String} {body : Node}
  {start marks : Nat} {value : Plain} {during later : World}
  (hgrounded : state.Grounded) (htargets : state.world.HasTargets refs) (htarget : target ∈ refs)
  (hbody : body.QuietAt state) (hstart : state.world.marks ≤ start)

include hgrounded htargets htarget hbody hstart

/-- One source takes the field one step further. -/
theorem accumulated_of_onPair {source : RecordRef} (haside : state.world.Aside refs source)
    (hbefore : Accumulated state refs edits target field start marks value during) {result : Unit}
    (hyields : (Procedure.setFieldFromOther.onPair (deeperAt state.setting nestingLimit).call
      (fromSources state.setting sources field parameter body) target source).Yields during result
        later) :
    ∃ next taken written,
      (valueFromSource state.setting parameter body value source).Yields
        { state.world with marks := marks } next { state.world with marks := taken } ∧
      Accumulated state refs (fun ref => edits ref ++ onlyOn target [.field field written] ref)
        target field start taken next later := by
  obtain ⟨current, text, between, hcurrent, htext, hwrite⟩ := yields_onPair hyields
  obtain rfl := Option.some.inj (hbefore.current.symm.trans hcurrent)
  -- The point at which the turn of the target started, with the records that there are now.
  let point : World := { during with marks := start }
  have hfollows : state.world.Follows (some source) point :=
    { hbefore.written.follows_aside haside with marks := hstart }
  have halong := alongside_textFromSource parameter hgrounded hfollows hbody value
  obtain ⟨_, given, taken, hspec, hbetween, rfl, htaken⟩ :=
    yields_of_alongside halong hbefore.marks htext
  have hmarked : during.Marked between := by
    rw [hbetween]
    exact .of_le (by simpa [hbetween] using marks_le_of_textFromSource htext)
  obtain ⟨mod, stored, written, -, -, hstored, hconvert, hmarks, hfields⟩ :=
    (htargets.amended (hbefore.written.marked hmarked).amended).written_setField htarget hwrite
  obtain rfl := Option.some.inj (hcurrent.symm.trans (hmarked.pool ▸ hstored))
  rw [FieldType.of?_remark] at hconvert
  have hplain : written.remark (state.world.movedTo point).relocation.mark = written :=
    FieldType.remark_of_convert hconvert
  obtain ⟨hnext, hmarksNext⟩ := Plain.marked_remark hplain htaken
  obtain ⟨active, hactive, -⟩ := htargets
  refine ⟨(written.marked given).1, (written.marked given).2, (written.marked between.marks).1,
    ?_, ?_⟩
  · refine yields_bind.mpr ⟨_, _, hspec, ?_⟩
    refine yields_bind.mpr ⟨written, _, yields_settle.mpr ⟨hconvert, rfl⟩, ?_⟩
    have hthere : ({ state.world with marks := given } : World).active = some active := hactive
    exact (yields_onActive_mark hthere).mpr ⟨rfl, rfl⟩
  · refine ⟨hbefore.written.trans (.of_marked hmarked hfields), ?_, ?_, fun offset => ?_⟩
    · rw [onlyOn_self]
      exact List.forall_mem_append.mpr
        ⟨hbefore.ofField, List.forall_mem_singleton.mpr ⟨_, rfl⟩⟩
    · obtain ⟨_, _, -, -, hamended⟩ := hfields.amended
      rw [hamended.target target htarget, onlyOn_self, Record.edited_singleton]
      refine (Record.field?_setField_self _ _ _).trans (congrArg some ?_)
      rw [hbetween]
      exact hnext
    · rw [hmarks, hbetween]
      exact hmarksNext offset

/-- All sources of a target, one after the other. -/
theorem accumulated_of_forM {chosen : List RecordRef}
    (haside : ∀ source ∈ chosen, state.world.Aside refs source)
    (hbefore : Accumulated state refs edits target field start marks value during)
    (hyields : (chosen.forM (Procedure.setFieldFromOther.onPair
      (deeperAt state.setting nestingLimit).call
      (fromSources state.setting sources field parameter body) target)).Yields during () later) :
    ∃ final taken more,
      (chosen.foldlM (valueFromSource state.setting parameter body) value).Yields
        { state.world with marks := marks } final { state.world with marks := taken } ∧
      Accumulated state refs more target field start taken final later ∧
      (∀ ref, ref ≠ target → more ref = edits ref) ∧
      (edits target).length + chosen.length = (more target).length := by
  induction chosen generalizing during edits marks value with
  | nil =>
    obtain ⟨-, rfl⟩ := yields_pure.mp hyields
    exact ⟨value, marks, edits, yields_pure.mpr ⟨rfl, rfl⟩, hbefore, fun _ _ => rfl, rfl⟩
  | cons source rest ih =>
    obtain ⟨hsource, hrest⟩ := List.forall_mem_cons.mp haside
    obtain ⟨_, between, hfirst, hlater⟩ := yields_bind.mp hyields
    obtain ⟨next, given, written, hnext, hbetween⟩ :=
      accumulated_of_onPair hgrounded htargets htarget hbody hstart hsource hbefore hfirst
    obtain ⟨final, taken, more, hfinal, hafter, hothers, hlength⟩ := ih hrest hbetween hlater
    refine ⟨final, taken, more, ?_, hafter, fun ref href => ?_, ?_⟩
    · rw [List.foldlM_cons]
      exact yields_bind.mpr ⟨next, _, hnext, hfinal⟩
    · rw [hothers ref href, onlyOn_of_ne href, List.append_nil]
    · rw [onlyOn_self, List.length_append] at hlength
      rw [← hlength, List.length_cons, List.length_singleton]
      omega

end

/-- What the fold over sources makes of a field of a record in the state before the procedure is
what is written, but for the marks that tell values that are not a number apart. -/
def Folded (state : Patcher) (field parameter : String) (body : Node) (target : RecordRef)
    (chosen : List RecordRef) (written : Plain) : Prop :=
  ∃ initial final after, (state.world.pool.get target).field? field = some initial ∧
    (chosen.foldlM (valueFromSource state.setting parameter body) initial).Yields state.world final
      after ∧
    written.remark (fun _ => 0) = final.remark fun _ => 0

section

variable {state : Patcher} {refs : List RecordRef} {edits : RecordRef → List Record.Edit}
  {sources : Group} {field parameter : String} {body : Node} {during later : World}
  (hgrounded : state.Grounded) (htargets : state.world.HasTargets refs)
  (hbody : body.QuietAt state) (hwritten : World.FieldsWritten refs edits state.world during)

include hgrounded htargets hbody hwritten

/-- The turn of a target. -/
theorem folded_of_target {target : RecordRef} (htarget : target ∈ refs) (hnone : edits target = [])
    {chosen : List RecordRef} (hsome : chosen ≠ [])
    (haside : ∀ source ∈ chosen, state.world.Aside refs source)
    (hyields : (chosen.forM (Procedure.setFieldFromOther.onPair
      (deeperAt state.setting nestingLimit).call
      (fromSources state.setting sources field parameter body) target)).Yields during () later) :
    ∃ more written, World.FieldsWritten refs more state.world later ∧
      (∀ ref, ref ≠ target → more ref = edits ref) ∧ more target ≠ [] ∧
      (∀ record : Record, record.edited (more target) = record.setField field written) ∧
      Folded state field parameter body target chosen written := by
  obtain ⟨hsame, -⟩ := follows_target htargets htarget hwritten hnone
  obtain ⟨initial, hinitial⟩ : ∃ initial, (during.pool.get target).field? field = some initial := by
    obtain ⟨source, rest, rfl⟩ := List.exists_cons_of_ne_nil hsome
    obtain ⟨_, _, hfirst, -⟩ := yields_bind.mp hyields
    obtain ⟨initial, _, _, hinitial, -⟩ := yields_onPair hfirst
    exact ⟨initial, hinitial⟩
  have hstart : Accumulated state refs edits target field during.marks state.world.marks initial
      during := by
    have hwithin := (hgrounded.within_movedTo during).pool target
    have hstill : initial.remark (state.world.remarking during.marks) = initial := by
      have hfield := Record.field?_remark (state.world.movedTo during).relocation.mark_injective
        (state.world.pool.get target) field
      rw [hwithin, ← hsame, hinitial] at hfield
      exact (Option.some.inj hfield).symm
    refine ⟨hwritten, ?_, by rw [hstill]; exact hinitial, World.mark_movedTo hwritten.marks⟩
    rw [hnone]
    exact List.forall_mem_nil _
  obtain ⟨final, taken, more, hfinal, hafter, hothers, hlength⟩ :=
    accumulated_of_forM hgrounded htargets htarget hbody hwritten.marks haside hstart hyields
  have hmore : more target ≠ [] := by
    have hlong := List.length_pos_of_ne_nil hsome
    refine List.ne_nil_of_length_pos ?_
    omega
  obtain ⟨written, hedited⟩ := Record.exists_edited_eq_setField hafter.ofField hmore
  refine ⟨more, written, hafter.written, hothers, hmore, hedited, initial, final, _,
    hsame ▸ hinitial, hfinal, ?_⟩
  have hlast := hafter.current
  obtain ⟨_, _, -, -, hamended⟩ := hafter.written.amended
  rw [hamended.target target htarget, hedited, Record.field?_setField_self] at hlast
  rw [Option.some.inj hlast]
  exact Plain.remark_remark (state.world.remarking during.marks) (fun _ => 0) final

/-- The turns of all targets, each with its sources. -/
theorem folded_of_forM {turns : List (RecordRef × List RecordRef)}
    (hturns : ∀ turn ∈ turns, turn.1 ∈ refs ∧ edits turn.1 = [])
    (hnodup : (turns.map Prod.fst).Nodup)
    (hsources : ∀ turn ∈ turns, turn.2 ≠ [] ∧ ∀ source ∈ turn.2, state.world.Aside refs source)
    (hyields : ((turns.flatMap fun turn => turn.2.map (turn.1, ·)).forM fun pair =>
      Procedure.setFieldFromOther.onPair (deeperAt state.setting nestingLimit).call
        (fromSources state.setting sources field parameter body) pair.1 pair.2).Yields during ()
          later) :
    ∃ more, World.FieldsWritten refs more state.world later ∧
      (∀ ref, ref ∉ turns.map Prod.fst → more ref = edits ref) ∧
      ∀ turn ∈ turns, ∃ written, more turn.1 ≠ [] ∧
        (∀ record : Record, record.edited (more turn.1) = record.setField field written) ∧
        Folded state field parameter body turn.1 turn.2 written := by
  induction turns generalizing during edits with
  | nil =>
    obtain ⟨-, rfl⟩ := yields_pure.mp hyields
    exact ⟨edits, hwritten, fun _ _ => rfl, List.forall_mem_nil _⟩
  | cons turn rest ih =>
    obtain ⟨⟨htarget, hnone⟩, hrest⟩ := List.forall_mem_cons.mp hturns
    obtain ⟨⟨hsome, haside⟩, hsources⟩ := List.forall_mem_cons.mp hsources
    obtain ⟨hnew, hnodup⟩ := List.nodup_cons.mp hnodup
    rw [List.flatMap_cons, List.forM_eq_forM, List.forM_append, List.forM_map] at hyields
    obtain ⟨_, between, hfirst, hlater⟩ := yields_bind.mp hyields
    obtain ⟨more, written, hbetween, hothers, hmore, hedited, hfolded⟩ :=
      folded_of_target hgrounded htargets hbody hwritten htarget hnone hsome haside hfirst
    have hkept : ∀ other ∈ rest, more other.1 = edits other.1 := by
      intro other hother
      refine hothers other.1 ?_
      rintro hsame
      exact hnew (hsame ▸ List.mem_map_of_mem hother)
    obtain ⟨last, hafter, hlast, hall⟩ := ih hbetween
      (fun other hother => ⟨(hrest other hother).1, (hkept other hother).trans
        (hrest other hother).2⟩) hnodup hsources hlater
    refine ⟨last, hafter, fun ref href => ?_, List.forall_mem_cons.mpr ⟨⟨written, ?_⟩, hall⟩⟩
    · rw [hlast ref (List.not_mem_of_not_mem_cons href), hothers ref (List.ne_of_not_mem_cons href)]
    · rw [hlast turn.1 hnew]
      exact ⟨hmore, hedited, hfolded⟩

end

end Procedure

end Patchwork
