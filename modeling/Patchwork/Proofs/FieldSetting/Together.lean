import Mathlib
import Patchwork.Proofs.FieldSetting.Writing
import Patchwork.Proofs.Relocation.Scripts
import Patchwork.Proofs.Trails.Visibility

/-!
# Setting a field of all records of a group

The procedure that sets a field works on the records of a group one after the other, and yet it is
as if all of them were set at once: what is written to a record depends on the records as they were
before the procedure, so the order of the group does not matter.
-/

namespace Patchwork

open Agree Eval

/-! ## Quiet expressions while fields are written -/

theorem Eval.Stays.marks_le {horizon : Horizon} {Result : Type} {gives : Result → Prop}
    {evaluation : Eval Result} (hstays : evaluation.Stays horizon gives) {before after : World}
    {result : Result} (hyields : evaluation.Yields before result after) :
    before.marks ≤ after.marks := by
  have hkeeps := hstays.keeps before
  rw [Yields] at hyields
  rw [hyields] at hkeeps
  exact hkeeps.marks

namespace Node

variable {state : Patcher} {during last : World} {current : Option RecordRef} {node : Node}

theorem marks_of_yields {setting : Setting} {before after : World} {value : Value}
    (hyields : (node.evaluate setting current).Yields before value after) :
    before.marks ≤ after.marks :=
  (node.stays_evaluate setting.environment.within_unmoved current).marks_le hyields

variable (hgrounded : state.Grounded) (hfollows : state.world.Follows current during)
  (hnode : node.QuietAt state)

include hgrounded hfollows hnode

/-- What a quiet expression gives at a later point corresponds to what it gave before. -/
theorem yields_of_later {other : Value}
    (hyields : (node.evaluate state.setting current).Yields during other last) :
    during.Marked last ∧ ∃ value after,
      (node.evaluate state.setting current).Yields state.world value after ∧
      (state.world.movedTo during).relocation.Values value other := by
  have hmarks := marks_of_yields hyields
  obtain ⟨value, given, taken, hbefore, rfl, hvalues, -⟩ :=
    yields_of_alongside (alongside_evaluate hgrounded hfollows hnode)
      (World.mark_movedTo hfollows.marks) hyields
  exact ⟨.of_le hmarks, value, _, hbefore, hvalues⟩

/-- What a quiet expression gave before it gives at a later point. -/
theorem exists_yields_later {value : Value} {after : World}
    (hyields : (node.evaluate state.setting current).Yields state.world value after) :
    ∃ other last, (node.evaluate state.setting current).Yields during other last ∧
      during.Marked last ∧ (state.world.movedTo during).relocation.Values value other := by
  obtain ⟨other, taken, hlater, hvalues⟩ :=
    exists_yields_of_alongside (alongside_evaluate hgrounded hfollows hnode)
      (World.mark_movedTo hfollows.marks) hyields
  exact ⟨other, _, hlater, .of_le (marks_of_yields hlater), hvalues⟩

end Node

/-! ## One record -/

/-- What is to be written into a field of a record: the text that the value is displayed as, in the
type of the value that the field has.  The name and the value are evaluated against the record. -/
structure Procedure.Settable (state : Patcher) (name value : Node) (target : RecordRef)
    (field : String) (given : Plain) : Prop where
  named : ∃ after, (name.evaluate state.setting (some target)).Yields state.world (.string field)
    after
  shown : ∃ shown after, (value.evaluate state.setting (some target)).Yields state.world shown
      after ∧
    ∃ current, (state.world.pool.get target).field? field = some current ∧
      ((FieldType.of? current).getD .text).convert (shown.display state.world.pool.label) =
        .ok given

namespace Procedure

variable {state : Patcher} {name value : Node} {target : RecordRef} {field : String}
  {given : Plain}

theorem Settable.unique (hsettable : Settable state name value target field given)
    {other : String} {more : Plain} (hagain : Settable state name value target other more) :
    other = field ∧ more = given := by
  obtain ⟨⟨_, hnamed⟩, shown, _, hshown, current, hcurrent, hgiven⟩ := hsettable
  obtain ⟨⟨_, hnamedAgain⟩, shownAgain, _, hshownAgain, currentAgain, hcurrentAgain, hmore⟩ := hagain
  rw [Yields] at hnamed hnamedAgain hshown hshownAgain
  cases hnamed.symm.trans hnamedAgain
  cases hshown.symm.trans hshownAgain
  cases hcurrent.symm.trans hcurrentAgain
  cases hgiven.symm.trans hmore
  exact ⟨rfl, rfl⟩

/-- The work on one record: a name and a value are evaluated, and a text is written. -/
theorem onTarget_setField (caller : Caller) (deeper : Deeper) (setting : Setting)
    (name value : Node) (target : RecordRef) :
    Procedure.setField.onTarget caller (argumentsWith deeper setting [name, value]) target = (do
      let field ← labelled ((← name.evaluateWith deeper setting (some target)).expectString ·
        "SetField name")
      let shown ← value.evaluateWith deeper setting (some target)
      onActive (Work.setField target field (shown.display (← labels)))) := rfl

theorem string_of_values {relocation : Relocation} {value other : Value} {labels : Labels}
    {purpose text : String} (hvalues : relocation.Values value other)
    (hstring : other.expectString labels purpose = .ok text) : value = .string text := by
  obtain ⟨rfl, -⟩ := hvalues
  cases value <;> cases hstring
  rfl

section

variable {refs : List RecordRef} {edits : RecordRef → List Record.Edit} {during later : World}
  {caller : Caller}
  (hgrounded : state.Grounded) (htargets : state.world.HasTargets refs) (htarget : target ∈ refs)
  (hname : name.QuietAt state) (hvalue : value.QuietAt state)
  (hwritten : World.FieldsWritten refs edits state.world during) (hnone : edits target = [])

include htargets htarget hwritten hnone

theorem follows_target : during.pool.get target = state.world.pool.get target ∧
    state.world.Follows (some target) during := by
  obtain ⟨_, hmod, hheld, -⟩ := htargets
  obtain ⟨_, _, -, -, hamended⟩ := hwritten.amended
  have hsame : during.pool.get target = state.world.pool.get target := by
    rw [hamended.target target htarget, hnone, Record.edited_nil]
  refine ⟨hsame, hwritten.follows ?_ ?_⟩
  · rintro ref ⟨⟩
    exact hheld target htarget
  · rintro ref ⟨⟩
    exact congrArg Record.fields hsame

include hgrounded hname hvalue

/-- A record whose turn it is gets what it is to get by the records before the procedure. -/
theorem settable_of_onTarget {result : Unit}
    (hyields : (Procedure.setField.onTarget caller
      (argumentsWith (deeperAt state.setting nestingLimit) state.setting [name, value])
        target).Yields during result later) :
    ∃ field given marks, Settable state name value target field given ∧
      (∀ mod, state.world.active = some mod →
        (state.world.pool.get target).id ∉ mod.deleted) ∧
      World.FieldsWritten refs (onlyOn target [.field field (given.marked marks).1]) during
        later := by
  obtain ⟨hsame, hfollows⟩ := follows_target htargets htarget hwritten hnone
  rw [onTarget_setField] at hyields
  obtain ⟨named, afterName, hnamed, hyields⟩ := yields_bind.mp hyields
  obtain ⟨hnameMarked, nameValue, _, hnameBefore, hnameValues⟩ :=
    Node.yields_of_later hgrounded hfollows hname hnamed
  obtain ⟨field, _, hfield, hyields⟩ := yields_bind.mp hyields
  obtain ⟨hstring, rfl⟩ := yields_labelled.mp hfield
  obtain rfl := string_of_values hnameValues hstring
  obtain ⟨shownLater, afterShown, hshown, hyields⟩ := yields_bind.mp hyields
  have hfollowsName := hfollows.marked hnameMarked
  obtain ⟨hshownMarked, shown, _, hshownBefore, hshownValues⟩ :=
    Node.yields_of_later hgrounded hfollowsName hvalue hshown
  obtain ⟨labels, _, hlabels, hwrite⟩ := yields_bind.mp hyields
  obtain ⟨rfl, rfl⟩ := yields_labels.mp hlabels
  have hmarked := hnameMarked.trans hshownMarked
  have hnow := hwritten.marked hmarked
  obtain ⟨mod, current, given, hmod, hundeleted, hcurrent, hconvert, -, hfields⟩ :=
    (htargets.amended hnow.amended).written_setField htarget hwrite
  have hdisplay := World.Follows.display_eq hgrounded hfollowsName hshownValues
  rw [hshownMarked.pool, hdisplay] at hconvert
  rw [hmarked.pool, hsame] at hundeleted hcurrent
  refine ⟨field, given, afterShown.marks,
    ⟨⟨_, hnameBefore⟩, shown, _, hshownBefore, current, hcurrent, hconvert⟩, fun other hother => ?_,
    .of_marked hmarked hfields⟩
  rwa [← hnow.deleted hother hmod]

/-- A record that has something to get and has not been deleted gets it when it is its turn. -/
theorem exists_yields_onTarget (hsettable : Settable state name value target field given)
    (hundeleted : ∀ mod, state.world.active = some mod →
      (state.world.pool.get target).id ∉ mod.deleted) :
    ∃ later, (Procedure.setField.onTarget caller
      (argumentsWith (deeperAt state.setting nestingLimit) state.setting [name, value])
        target).Yields during () later := by
  obtain ⟨hsame, hfollows⟩ := follows_target htargets htarget hwritten hnone
  obtain ⟨⟨_, hnameBefore⟩, shown, _, hshownBefore, current, hcurrent, hconvert⟩ := hsettable
  obtain ⟨named, afterName, hnamed, hnameMarked, hnameValues⟩ :=
    Node.exists_yields_later hgrounded hfollows hname hnameBefore
  have hfollowsName := hfollows.marked hnameMarked
  obtain ⟨shownLater, afterShown, hshown, hshownMarked, hshownValues⟩ :=
    Node.exists_yields_later hgrounded hfollowsName hvalue hshownBefore
  have hmarked := hnameMarked.trans hshownMarked
  have hdisplay := World.Follows.display_eq hgrounded hfollowsName hshownValues
  obtain ⟨mod, hmod, -⟩ := id htargets
  obtain ⟨patched, hpatched, -⟩ := htargets.amended (hwritten.marked hmarked).amended
  have hstill : (afterShown.pool.get target).id ∉ patched.deleted := by
    rw [hmarked.pool, hsame, (hwritten.marked hmarked).deleted hmod hpatched]
    exact hundeleted mod hmod
  rw [← hsame, ← hmarked.pool] at hcurrent
  rw [← hdisplay, ← hshownMarked.pool] at hconvert
  obtain ⟨_, later, hwrite⟩ := World.exists_yields_setField hpatched hstill hcurrent hconvert
  obtain rfl := hnameValues.1
  refine ⟨later, ?_⟩
  rw [onTarget_setField]
  refine yields_bind.mpr ⟨_, afterName, hnamed, ?_⟩
  refine yields_bind.mpr ⟨field, afterName, yields_labelled.mpr ⟨rfl, rfl⟩, ?_⟩
  refine yields_bind.mpr ⟨shownLater, afterShown, hshown, ?_⟩
  exact yields_bind.mpr ⟨_, afterShown, yields_labels.mpr ⟨rfl, rfl⟩, hwrite⟩

end

/-! ## All records of a group -/

/-- Writing to one target leaves the others that nothing has been written to. -/
theorem targets_left {refs rest : List RecordRef} {edits : RecordRef → List Record.Edit}
    {written : List Record.Edit} (hnew : target ∉ rest)
    (hrest : ∀ ref ∈ rest, ref ∈ refs ∧ edits ref = []) :
    ∀ ref ∈ rest, ref ∈ refs ∧ edits ref ++ onlyOn target written ref = [] := by
  intro ref href
  refine ⟨(hrest ref href).1, ?_⟩
  rw [onlyOn_of_ne (ne_of_mem_of_not_mem href hnew), List.append_nil]
  exact (hrest ref href).2

/-- The records that have a turn still are targets that nothing has been written to. -/
theorem settable_of_forM {refs rest : List RecordRef} {edits : RecordRef → List Record.Edit}
    {during after : World} {caller : Caller} (hgrounded : state.Grounded)
    (htargets : state.world.HasTargets refs)
    (hname : name.QuietAt state) (hvalue : value.QuietAt state)
    (hwritten : World.FieldsWritten refs edits state.world during)
    (hrest : ∀ target ∈ rest, target ∈ refs ∧ edits target = []) (hnodup : rest.Nodup)
    (hyields : (rest.forM (Procedure.setField.onTarget caller
      (argumentsWith (deeperAt state.setting nestingLimit) state.setting [name, value]))).Yields
        during () after) :
    ∃ more, World.FieldsWritten refs more state.world after ∧
      (∀ target, target ∉ rest → more target = edits target) ∧
      ∀ target ∈ rest, ∃ field given marks, Settable state name value target field given ∧
        (∀ mod, state.world.active = some mod →
          (state.world.pool.get target).id ∉ mod.deleted) ∧
        more target = [.field field (given.marked marks).1] := by
  induction rest generalizing during edits with
  | nil =>
    obtain ⟨-, rfl⟩ := yields_pure.mp hyields
    exact ⟨edits, hwritten, fun _ _ => rfl, List.forall_mem_nil _⟩
  | cons target rest ih =>
    obtain ⟨⟨htarget, hnone⟩, hrest⟩ := List.forall_mem_cons.mp hrest
    obtain ⟨hnew, hnodup⟩ := List.nodup_cons.mp hnodup
    obtain ⟨_, between, hfirst, hlater⟩ := yields_bind.mp hyields
    obtain ⟨field, given, marks, hsettable, hundeleted, hstep⟩ :=
      settable_of_onTarget hgrounded htargets htarget hname hvalue hwritten hnone hfirst
    obtain ⟨more, hlast, hkept, hset⟩ := ih (hwritten.trans hstep) (targets_left hnew hrest)
      hnodup hlater
    refine ⟨more, hlast, fun ref href => ?_, List.forall_mem_cons.mpr ⟨?_, hset⟩⟩
    · rw [hkept ref (List.not_mem_of_not_mem_cons href), onlyOn_of_ne (List.ne_of_not_mem_cons href),
        List.append_nil]
    · refine ⟨field, given, marks, hsettable, hundeleted, ?_⟩
      rw [hkept target hnew, hnone, onlyOn_self, List.nil_append]

/-- If every record has something to get and none has been deleted, all of them get it. -/
theorem exists_yields_forM {refs rest : List RecordRef} {edits : RecordRef → List Record.Edit}
    {during : World} {caller : Caller} (hgrounded : state.Grounded)
    (htargets : state.world.HasTargets refs)
    (hname : name.QuietAt state) (hvalue : value.QuietAt state)
    (hwritten : World.FieldsWritten refs edits state.world during)
    (hrest : ∀ target ∈ rest, target ∈ refs ∧ edits target = []) (hnodup : rest.Nodup)
    (hsettable : ∀ target ∈ rest, ∃ field given, Settable state name value target field given ∧
      ∀ mod, state.world.active = some mod → (state.world.pool.get target).id ∉ mod.deleted) :
    ∃ after, (rest.forM (Procedure.setField.onTarget caller
      (argumentsWith (deeperAt state.setting nestingLimit) state.setting [name, value]))).Yields
        during () after := by
  induction rest generalizing during edits with
  | nil => exact ⟨during, yields_pure.mpr ⟨rfl, rfl⟩⟩
  | cons target rest ih =>
    obtain ⟨⟨htarget, hnone⟩, hrest⟩ := List.forall_mem_cons.mp hrest
    obtain ⟨hnew, hnodup⟩ := List.nodup_cons.mp hnodup
    obtain ⟨⟨field, given, hhead, hundeleted⟩, hsettable⟩ := List.forall_mem_cons.mp hsettable
    obtain ⟨between, hfirst⟩ := exists_yields_onTarget hgrounded htargets htarget hname hvalue
      hwritten hnone hhead hundeleted
    obtain ⟨_, _, _, -, -, hstep⟩ :=
      settable_of_onTarget hgrounded htargets htarget hname hvalue hwritten hnone hfirst
    obtain ⟨after, hlater⟩ := ih (hwritten.trans hstep)
      (targets_left hnew hrest) hnodup hsettable
    exact ⟨after, yields_bind.mpr ⟨(), between, hfirst, hlater⟩⟩

/-! ## A whole procedure -/

/-- A record gets its field by the records before the procedure. -/
theorem settable_of_pipe {group : Group} {record : Option RecordRef} {result : Value}
    {after : World} (hgrounded : state.Grounded) (hname : name.QuietAt state)
    (hvalue : value.QuietAt state) (hgroup : group.Apart state.world.pool)
    (hown : state.world.OwnHeld)
    (hyields : ((Node.pipe (.group group) .setField [name, value] false).evaluate state.setting
      record).Yields state.world result after) :
    ∃ edits, World.Amended group.records edits state.world after ∧
      ∀ target ∈ group.records, ∃ field given marks,
        Settable state name value target field given ∧
        (∀ mod, state.world.active = some mod →
          (state.world.pool.get target).id ∉ mod.deleted) ∧
        edits target = [.field field (given.marked marks).1] := by
  obtain ⟨-, mod, worked, hmod, hworked, hend⟩ := (Node.yields_pipe_of_one rfl).mp hyields
  have htargets : state.world.HasTargets group.records :=
    ⟨mod, hmod, hgroup.targets (hown mod hmod)⟩
  obtain ⟨edits, hwritten, -, hset⟩ := settable_of_forM hgrounded htargets hname hvalue
    htargets.written_refl (fun target htarget => ⟨htarget, rfl⟩) hgroup.nodup hworked
  have hlast := hwritten.amended.trans
    (amended_conclude hend (htargets.amended hwritten.amended))
  exact ⟨edits, hlast.congr fun target _ => List.append_nil _, hset⟩

/-- If every record has a field to get and none has been deleted, the procedure succeeds. -/
theorem exists_yields_pipe {group : Group} {mod : Mod} (hgrounded : state.Grounded)
    (hname : name.QuietAt state) (hvalue : value.QuietAt state)
    (hgroup : group.Apart state.world.pool) (hmod : state.world.active = some mod)
    (hown : state.world.OwnHeld)
    (hsettable : ∀ target ∈ group.records, ∃ field given,
      Settable state name value target field given ∧
      ∀ mod, state.world.active = some mod → (state.world.pool.get target).id ∉ mod.deleted)
    (record : Option RecordRef) :
    ∃ after, ((Node.pipe (.group group) .setField [name, value] false).evaluate state.setting
      record).Yields state.world (.group group) after := by
  have htargets : state.world.HasTargets group.records :=
    ⟨mod, hmod, hgroup.targets (hown mod hmod)⟩
  have hrest : ∀ target ∈ group.records, target ∈ group.records ∧ ([] : List Record.Edit) = [] :=
    fun target htarget => ⟨htarget, rfl⟩
  obtain ⟨worked, hworked⟩ := exists_yields_forM hgrounded htargets hname hvalue
    htargets.written_refl hrest hgroup.nodup hsettable
  obtain ⟨edits, hwritten, -⟩ := settable_of_forM hgrounded htargets hname hvalue
    htargets.written_refl hrest hgroup.nodup hworked
  obtain ⟨_, patched, -, hpatched, -⟩ := hwritten.amended
  obtain ⟨after, hend, -⟩ := exists_yields_conclude hpatched
  exact ⟨after, (Node.yields_pipe_of_one rfl).mpr ⟨rfl, mod, worked, hmod, hworked, hend⟩⟩

end Procedure

/-! ## The order of a group -/

theorem Group.Apart.perm {group other : Group} {pool : Pool} (hgroup : group.Apart pool)
    (hperm : group.members.Perm other.members) : other.Apart pool where
  held ref href := hgroup.held ref ((hperm.map Member.record).mem_iff.mpr href)
  distinct := ((hperm.map Member.record).map fun ref => (pool.get ref).id).nodup_iff.mp
    hgroup.distinct

theorem Entries.convert_put_congr {Key Value Key' Value' : Type} [BEq Key] (rekey : Key → Key')
    {change : Value → Value'} {first second : Value} (hsame : change first = change second)
    (entries : Entries Key Value) (key : Key) :
    (entries.put key first).convert rekey change = (entries.put key second).convert rekey change := by
  induction entries with
  | nil => simp [put, hsame]
  | cons head rest ih =>
    obtain ⟨here, old⟩ := head
    by_cases hhere : (here == key) = true
    · simp [put, hhere, hsame]
    · simpa [put, hhere] using ih

/-- Values that differ in marks only make records that differ in marks only. -/
theorem Record.unmarked_setField {given first second : Plain} (hfirst : given.WrittenAs first)
    (hsecond : given.WrittenAs second) (record : Record) (name : String) :
    (record.setField name first).unmarked = (record.setField name second).unmarked := by
  have hfields := Entries.convert_put_congr (Plain.remark fun _ => 0) (hfirst.remark_eq hsecond)
    record.fields (.str name)
  exact congrArg (fun fields => { record with fields := fields }) hfields

/-- After any lines the records of the mod being patched are in the pool. -/
theorem afterLines_ownHeld {patcher : Patcher} {mod : Mod}
    (hheld : ∀ own ∈ mod.records, patcher.world.pool.Holds own) (lines : List String) :
    (patcher.afterLines mod lines).world.OwnHeld := by
  obtain ⟨-, hleads⟩ := afterLines_leads (Nat.zero_le patcher.world.pool.records.size) mod []
    lines (Rules.free_permits _ _)
  obtain ⟨moves, htrail, -⟩ := hleads.world
  refine htrail.keeps (fun _ hmove hown => hown.move hmove) ?_
  rintro _ ⟨⟩
  exact hheld

/-- Setting a field acts on all records of a group at once: a group in another order makes no
difference, and each record gets what its value is displayed as in the state before the procedure,
in the type of its field.  Whenever numbers that are not a number are written they are told apart
by new marks, so records that get one are the same up to the marks. -/
theorem setField_of_perm {patcher state : Patcher} {mod : Mod} {lines : List String}
    (hheld : ∀ own ∈ mod.records, patcher.world.pool.Holds own)
    (hmarked : ∀ ref, patcher.world.pool.Holds ref →
      (patcher.world.pool.get ref).MarkedWithin patcher.world.marks)
    (hstate : state = patcher.afterLines mod lines) {nameText valueText : String}
    {name value : Node} (hname : Node.ofText state.names nameText = .ok name)
    (hvalue : Node.ofText state.names valueText = .ok value)
    (hnameQuiet : name.Quiet state.environment) (hvalueQuiet : value.Quiet state.environment)
    {group other : Group} (hgroup : group.Apart state.world.pool)
    (hperm : group.members.Perm other.members) {record : Option RecordRef} {result : Value}
    {after : World}
    (hyields : ((Node.pipe (.group group) .setField [name, value] false).evaluate state.setting
      record).Yields state.world result after) :
    ∃ last patched final,
      ((Node.pipe (.group other) .setField [name, value] false).evaluate state.setting
        record).Yields state.world (.group other) last ∧
      after.active = some patched ∧ last.active = some final ∧
      (∀ ref ∈ group.records, (last.pool.get ref).unmarked = (after.pool.get ref).unmarked) ∧
      (∀ id, (final.version? last.pool id).map Record.unmarked =
        (patched.version? after.pool id).map Record.unmarked) ∧
      ∀ ref ∈ group.records, ∃ field given written,
        Procedure.Settable state name value ref field given ∧ given.WrittenAs written ∧
        after.pool.get ref = (state.world.pool.get ref).setField field written := by
  have hgrounded : state.Grounded := hstate ▸ Patcher.grounded_afterLines hmarked mod lines
  have hown : state.world.OwnHeld := hstate ▸ afterLines_ownHeld hheld lines
  have hnameAt := hgrounded.quietAt hname hnameQuiet
  have hvalueAt := hgrounded.quietAt hvalue hvalueQuiet
  have hother := hgroup.perm hperm
  have hmem : ∀ {ref}, ref ∈ other.records ↔ ref ∈ group.records :=
    (hperm.map Member.record).mem_iff.symm
  obtain ⟨edits, ⟨mod, patched, hmod, hpatched, hamended⟩, hset⟩ :=
    Procedure.settable_of_pipe hgrounded hnameAt hvalueAt hgroup hown hyields
  have hsettable : ∀ ref ∈ other.records, ∃ field given,
      Procedure.Settable state name value ref field given ∧
      ∀ mod, state.world.active = some mod → (state.world.pool.get ref).id ∉ mod.deleted := by
    intro ref href
    obtain ⟨field, given, _, hsettable, hundeleted, -⟩ := hset ref (hmem.mp href)
    exact ⟨field, given, hsettable, hundeleted⟩
  obtain ⟨last, hlast⟩ := Procedure.exists_yields_pipe hgrounded hnameAt hvalueAt hother hmod hown
    hsettable record
  obtain ⟨more, ⟨_, final, hmodAgain, hfinal, hagain⟩, hsetAgain⟩ :=
    Procedure.settable_of_pipe hgrounded hnameAt hvalueAt hother hown hlast
  obtain rfl := Option.some.inj (hmod.symm.trans hmodAgain)
  have hsame : ∀ ref ∈ group.records, ∃ field given first second,
      Procedure.Settable state name value ref field given ∧
      given.WrittenAs first ∧ given.WrittenAs second ∧
      edits ref = [.field field first] ∧ more ref = [.field field second] := by
    intro ref href
    obtain ⟨field, given, marks, hsettable, -, hedits⟩ := hset ref href
    obtain ⟨_, _, others, hsettableAgain, -, hmore⟩ := hsetAgain ref (hmem.mpr href)
    obtain ⟨rfl, rfl⟩ := hsettable.unique hsettableAgain
    exact ⟨_, _, _, _, hsettable, Plain.writtenAs_marked _ _, Plain.writtenAs_marked _ _, hedits,
      hmore⟩
  refine ⟨last, patched, final, hlast, hpatched, hfinal, fun ref href => ?_, fun id => ?_,
    fun ref href => ?_⟩
  · obtain ⟨field, given, first, second, -, hfirst, hsecond, hedits, hmore⟩ := hsame ref href
    rw [hamended.target ref href, hagain.target ref (hmem.mpr href), hedits, hmore]
    exact Record.unmarked_setField hsecond hfirst _ field
  · by_cases htarget : ∃ ref ∈ group.records, (state.world.pool.get ref).id = id
    · obtain ⟨ref, href, rfl⟩ := htarget
      obtain ⟨field, given, first, second, -, hfirst, hsecond, hedits, hmore⟩ := hsame ref href
      rw [hamended.version ref href, hagain.version ref (hmem.mpr href), hedits, hmore]
      exact congrArg some (Record.unmarked_setField hsecond hfirst _ field)
    · have hnone : ∀ ref ∈ group.records, (state.world.pool.get ref).id ≠ id :=
        fun ref href hid => htarget ⟨ref, href, hid⟩
      rw [hamended.others id hnone, hagain.others id fun ref href => hnone ref (hmem.mp href)]
  · obtain ⟨field, given, first, _, hsettable, hfirst, -, hedits, -⟩ := hsame ref href
    refine ⟨field, given, first, hsettable, hfirst, ?_⟩
    rw [hamended.target ref href, hedits, Record.edited_singleton]
    rfl

/-- A mod with a sword and a spear. -/
def arsenal : Pool × Mod :=
  Mod.create {} "base" [
    { id := "1-base", kind := "WEAPON", isNew := true, fields := [(.str "damage", .int 5)] },
    { id := "2-base", kind := "WEAPON", isNew := true, fields := [(.str "damage", .int 7)] }] [] []

/-- A patcher that has loaded the mod. -/
def quartermaster : Patcher :=
  { repository := ⟨[("base", arsenal.2)]⟩, world := { pool := arsenal.1 } }

/-- The patcher when the weapons have been looked up. -/
def mustered : Patcher :=
  quartermaster.afterLines sharper ["weapons := (all)(A:WEAPON|true())"]

/-- Two weapons at their places. -/
def weaponsAt (first second : Nat) : Group :=
  ⟨[⟨"base", ⟨first⟩⟩, ⟨"base", ⟨second⟩⟩]⟩

/-- The tenfold damage of a weapon. -/
def tenfold : Node :=
  .binary .times (.call .getField [.literal (.string "damage")]) (.literal (.integer 10))

/-- A procedure call that multiplies the damage of weapons. -/
def multiplying (group : Group) : Node :=
  .pipe (.group group) .setField [.literal (.string "damage"), tenfold] false

theorem mustered_set_together :
    ∃ after last, ((multiplying (weaponsAt 2 3)).evaluate mustered.setting none).Yields
        mustered.world (.group (weaponsAt 2 3)) after ∧
      ((multiplying (weaponsAt 3 2)).evaluate mustered.setting none).Yields mustered.world
        (.group (weaponsAt 3 2)) last ∧
      (last.pool.get ⟨2⟩).unmarked = (after.pool.get ⟨2⟩).unmarked ∧
      ∃ given written, Procedure.Settable mustered (.literal (.string "damage")) tenfold ⟨2⟩
        "damage" given ∧ given.WrittenAs written ∧
        after.pool.get ⟨2⟩ = (mustered.world.pool.get ⟨2⟩).setField "damage" written := by
  have hheld : ∀ own ∈ sharper.records, quartermaster.world.pool.Holds own :=
    List.forall_mem_nil _
  have hmarked : ∀ ref, quartermaster.world.pool.Holds ref →
      (quartermaster.world.pool.get ref).MarkedWithin quartermaster.world.marks := by
    rintro ⟨index⟩ hless mark -
    have hindex : index < 2 := hless
    obtain rfl | rfl : index = 0 ∨ index = 1 := by omega
    · rfl
    · rfl
  have hname : ∀ names : Names, Node.ofText names "\"damage\"" =
      .ok (.literal (.string "damage")) := by
    intro names
    cbv
  have hvalue : ∀ names : Names, Node.ofText names "GetField(\"damage\") * 10" = .ok tenfold := by
    intro names
    cbv
  have hsize : mustered.world.pool.records.size = 4 := by decide +kernel
  have hgroup : (weaponsAt 2 3).Apart mustered.world.pool := by
    refine ⟨?_, by decide +kernel⟩
    intro ref hmem
    rw [Pool.Holds, hsize]
    revert ref
    decide
  have hperm : (weaponsAt 2 3).members.Perm (weaponsAt 3 2).members := .swap _ _ _
  have hok : (((multiplying (weaponsAt 2 3)).evaluate mustered.setting none).run
      mustered.world).1.isOk = true := by decide +kernel
  obtain ⟨value, after, hyields⟩ := exists_yields_of_isOk hok
  have hstate : mustered =
      quartermaster.afterLines sharper ["weapons := (all)(A:WEAPON|true())"] := rfl
  -- From here on it does not matter what the state is.
  generalize mustered = state at hstate hgroup hyields ⊢
  obtain ⟨last, _, _, hlast, -, -, hsame, -, hset⟩ := setField_of_perm hheld hmarked hstate
    (hname _) (hvalue _) trivial ⟨⟨trivial, trivial, trivial⟩, trivial⟩ hgroup hperm hyields
  obtain ⟨rfl, -⟩ := (Node.yields_pipe_of_one rfl).mp hyields
  have hmem : (⟨2⟩ : RecordRef) ∈ (weaponsAt 2 3).records := by decide
  refine ⟨after, last, hyields, hlast, hsame _ hmem, ?_⟩
  obtain ⟨field, given, written, hsettable, hwritten, hget⟩ := hset _ hmem
  obtain ⟨_, hnamed⟩ := hsettable.named
  cases (yields_pure.mp hnamed).1
  exact ⟨given, written, hsettable, hwritten, hget⟩

end Patchwork
