import Patchwork.Proofs.Trails.Edits
import Patchwork.Proofs.Trails.Lines

/-!
# Edits stay visible

A line that sets a field of the records of a group to a text edits these records one after the
other.  Around the edits it adds notices and dependencies only.

An edit writes to the record it is asked for and to the version of it that the mod being
patched has.  Whoever reads the field of either one gets what was written, until the field is
written to a record with that identifier again, so every group that holds the record sees the
edit.  A record that another query has merged is a record of its own, even if it has the same
identifier: it states what the loaded mods state.
-/

namespace Patchwork

/-! ## Lines that set a field -/

section

/-- The statement that sets a field of the records of a group to a text. -/
def Statement.setting (group : Group) (name text : String) : Statement :=
  .invoke (.pipe (.group group) .setField [.literal (.string name), .literal (.string text)] false)

/-- The group, the name and the text of a statement that sets a field. -/
def Statement.setting? : Statement → Option (Group × String × String)
  | .invoke (.pipe (.group group) .setField [.literal (.string name), .literal (.string text)]
      false) => some (group, name, text)
  | _ => none

theorem Statement.eq_setting {statement : Statement} {group : Group} {name text : String}
    (hsetting : statement.setting? = some (group, name, text)) :
    statement = .setting group name text := by
  unfold setting? at hsetting
  split at hsetting <;> cases hsetting
  rfl

variable {repository : Repository} {before after : World} {name text : String}
  {targets : List RecordRef} {group : Group}

theorem Procedure.edits_of_setField {caller : Caller} {target : RecordRef}
    (hyields : (Procedure.setField.onTarget caller
      [fun _ => pure (.string name), fun _ => pure (.string text)] target).Yields before () after) :
    (Move.edited target (.setField name text)).Leads repository before after := by
  obtain ⟨value, _, hvalue, hrest⟩ := Eval.yields_bind.mp hyields
  obtain ⟨rfl, rfl⟩ := Eval.yields_pure.mp hvalue
  obtain ⟨given, _, hgiven, hrest⟩ := Eval.yields_bind.mp hrest
  obtain ⟨hname, rfl⟩ := Eval.yields_labelled.mp hgiven
  cases hname
  obtain ⟨value, _, hvalue, hrest⟩ := Eval.yields_bind.mp hrest
  obtain ⟨rfl, rfl⟩ := Eval.yields_pure.mp hvalue
  obtain ⟨labels, _, hlabels, hwork⟩ := Eval.yields_bind.mp hrest
  obtain ⟨-, rfl⟩ := Eval.yields_labels.mp hlabels
  exact hwork

theorem trail_of_setField {caller : Caller}
    (hyields : (targets.forM (Procedure.setField.onTarget caller
      [fun _ => pure (.string name), fun _ => pure (.string text)])).Yields before () after) :
    Trail repository before (targets.map fun target => .edited target (.setField name text))
      after := by
  induction targets generalizing before with
  | nil =>
    obtain ⟨-, rfl⟩ := Eval.yields_pure.mp hyields
    exact .done before
  | cons target rest ih =>
    obtain ⟨_, between, hfirst, hrest⟩ := Eval.yields_bind.mp hyields
    exact .step (Procedure.edits_of_setField hfirst) (ih hrest)

theorem Node.trail_of_setField {setting : Setting} {value : Value}
    (hyields : ((Node.pipe (.group group) .setField
      [.literal (.string name), .literal (.string text)] false).evaluate setting none).Yields
        before value after) :
    ∃ entries, Trail repository before
      (group.records.map (fun target => Move.edited target (.setField name text)) ++
        [.depended entries, .rested]) after := by
  rw [Node.evaluate, Node.evaluateWith] at hyields
  obtain ⟨left, _, hleft, hpipe⟩ := Eval.yields_bind.mp hyields
  obtain ⟨rfl, rfl⟩ := Eval.yields_pure.mp hleft
  obtain ⟨found, _, hfound, hpipe⟩ := Eval.yields_bind.mp hpipe
  obtain ⟨hgroup, rfl⟩ := Eval.yields_labelled.mp hfound
  cases hgroup
  obtain ⟨_, applied, happly, hlast⟩ := Eval.yields_bind.mp hpipe
  obtain ⟨-, rfl⟩ := Eval.yields_pure.mp hlast
  rw [Procedure.apply_of_one _ _ _ _ rfl] at happly
  obtain ⟨mod, _, hactive, hwork⟩ := Eval.yields_bind.mp happly
  obtain ⟨-, rfl⟩ := Eval.yields_requireActive.mp hactive
  obtain ⟨_, worked, hworked, hend⟩ := Eval.yields_bind.mp hwork
  obtain ⟨_, depended, hdepended, hnote⟩ := Eval.yields_bind.mp hend
  cases hnote
  exact ⟨_, (trail_of_setField hworked).append (.step hdepended (.single ⟨rfl, rfl⟩))⟩

theorem rested_listDefinitions (repository : Repository) (patcher : Patcher) :
    Move.rested.Leads repository patcher.world (listDefinitions.run patcher).2.world := by
  have hnotes : ∀ (texts : List String) (patcher : Patcher), Move.rested.Leads repository
      patcher.world
      ((texts.forM fun text => Run.note .debug .context text : Run PUnit).run patcher).2.world := by
    intro texts
    induction texts with
    | nil => exact fun patcher => ⟨rfl, rfl⟩
    | cons text rest ih => exact fun patcher => ih (patcher.note .debug .context text)
  rw [listDefinitions, Agree.Computations.run_bind]
  change Move.rested.Leads repository patcher.world
    ((if !patcher.listed then _ else _ : Run Unit).run patcher).2.world
  split
  · exact hnotes _ { patcher with listed := true }
  · exact ⟨rfl, rfl⟩

/-- A line that sets a field edits each record of its group in turn. -/
theorem Statement.trail_of_setting {before after : Patcher}
    (hruns : (Statement.setting group name text).execute.run before = (.ok (), after)) :
    ∃ entries, Trail repository before.world
      (.rested :: (group.records.map (fun target => Move.edited target (.setField name text)) ++
        [.depended entries, .rested])) after.world := by
  have hrested := rested_listDefinitions repository before
  unfold setting execute at hruns
  rw [Agree.Computations.run_bind] at hruns
  rcases hlisted : listDefinitions.run before with ⟨fault | result, listed⟩
  · rw [hlisted] at hruns
    cases hruns
  · rw [hlisted] at hruns hrested
    dsimp only at hruns
    rw [Agree.Computations.run_bind, Run.run_evaluate] at hruns
    rcases hran : ((Node.pipe (.group group) .setField [.literal (.string name),
      .literal (.string text)] false).evaluate listed.setting none).run listed.world with
      ⟨fault | value, world⟩
    · rw [hran] at hruns
      cases hruns
    · rw [hran] at hruns
      cases hruns
      obtain ⟨entries, htrail⟩ := Node.trail_of_setField hran
      exact ⟨entries, .step hrested htrail⟩

/-- After lines that pass a line that sets a field leads along the edits of the records. -/
theorem Patcher.trail_of_setting {patcher : Patcher} {mod : Mod} {earlier : List String}
    {raw : String} (hpasses : (patcher.reset.start mod).Passes earlier)
    (hstatement : isStatement raw = true)
    (hread : Statement.ofLine (patcher.afterLines mod earlier).names (stripComment raw) =
      .ok (.setting group name text))
    (hfault : (patcher.afterLines mod earlier).lineFault? raw = none) :
    ∃ entries, Trail patcher.repository (patcher.afterLines mod earlier).world
      (.rested :: (group.records.map (fun target => Move.edited target (.setField name text)) ++
        [.depended entries, .rested])) (patcher.afterLines mod (earlier ++ [raw])).world := by
  have hrunning : (patcher.reset.start mod).world.stopping = false := rfl
  have hbefore : (patcher.reset.start mod).leftBy earlier = patcher.afterLines mod earlier := by
    rw [Patcher.afterLines, hpasses.executeLines hrunning]
  have hafter : patcher.afterLines mod (earlier ++ [raw]) =
      (patcher.afterLines mod earlier).afterLine raw := by
    have hstill := stopping_leftBy hrunning hpasses
    rw [Patcher.afterLines, executeLines_append_of_passes 1 0 [raw] hrunning hpasses]
    rw [hbefore] at hstill ⊢
    rw [executeLines_of_no_fault _ _ [] hstill hfault, executeLines]
  rw [hafter]
  generalize patcher.afterLines mod earlier = before at hread hfault
  rw [lineFault?, if_pos hstatement, run_executeLine, hread] at hfault
  rw [afterLine, if_pos hstatement, run_executeLine, hread]
  rcases hruns : (Statement.setting group name text).execute.run before with
    ⟨fault | result, after⟩
  · simp only [hruns] at hfault
    cases hfault
  · simp only [hruns]
    exact Statement.trail_of_setting hruns

end

/-! ## Reading fields -/

/-- The expression that reads a field of the current record. -/
def Node.getField (name : String) : Node :=
  .call .getField [.literal (.string name)]

/-- Reading a field of a record gives a value. -/
def World.Shows (world : World) (ref : RecordRef) (name : String) (value : Plain) : Prop :=
  ∃ shown, Value.ofPlain value = .ok shown ∧
    ∀ setting, ((Node.getField name).evaluate setting (some ref)).Yields world shown world

/-- The mod being patched has a version of a record with a value in a field, unless the record
has been deleted. -/
def World.Stores (world : World) (id name : String) (value : Plain) : Prop :=
  ∃ mod, world.active = some mod ∧
    (id ∈ mod.deleted ∨ ∃ own ∈ mod.records, (world.pool.get own).id = id ∧
      (world.pool.get own).field? name = some value)

/-- A value that is not marked as it is read is read as it is. -/
theorem World.shows_of_field {world : World} {ref : RecordRef} {name : String} {value : Plain}
    {shown : Value} (hfield : (world.pool.get ref).field? name = some value)
    (hshown : Value.ofPlain value = .ok shown) (hmarked : shown ≠ .float (.nan 0)) :
    world.Shows ref name value := by
  refine ⟨shown, hshown, fun setting => ?_⟩
  have hresult : (Function.getField.result (some ref)
      [fun _ => (pure (.string name) : Eval Value)]).Yields world shown world := by
    unfold Function.result
    refine Eval.yields_bind.mpr ⟨ref, world, rfl, ?_⟩
    refine Eval.yields_bind.mpr ⟨.string name, world, rfl, ?_⟩
    refine Eval.yields_bind.mpr ⟨name, world, Eval.yields_labelled.mpr ⟨rfl, rfl⟩, ?_⟩
    refine Eval.yields_bind.mpr ⟨_, world, Eval.yields_record.mpr ⟨rfl, rfl⟩, ?_⟩
    rw [hfield]
    exact Eval.yields_settle.mpr ⟨hshown, rfl⟩
  rw [Node.getField, Node.evaluate, Node.evaluateWith, argumentsWith, argumentsWith]
  refine Eval.yields_bind.mpr ⟨shown, world, hresult, ?_⟩
  unfold Eval.mark
  split
  · exact absurd rfl hmarked
  · exact Eval.yields_pure.mpr ⟨rfl, rfl⟩

/-! ## What edits write -/

/-- The field that an edit writes. -/
def Edit.field? : Edit → Option String
  | setField name _ => some name
  | forceSetField name _ _ => some name
  | delete => some Record.removedField
  | relink _ => none
  | addLink .. => none

namespace Edit.Writes

variable {edit : Edit} {record : Record} {name : String} {value : Plain} {made : Record.Edit}

theorem field?_eq (hwrites : edit.Writes record (.field name value)) : edit.field? = some name := by
  cases hwrites <;> rfl

theorem of_field? (hwrites : edit.Writes record made) (hfield : edit.field? = some name) :
    ∃ value, made = .field name value := by
  cases hwrites <;> cases hfield <;> exact ⟨_, rfl⟩

/-- What is written can be read. -/
theorem ofPlain (hwrites : edit.Writes record (.field name value)) :
    ∃ shown, Value.ofPlain value = .ok shown ∧ shown ≠ .float (.nan 0) := by
  have hconverted : ∀ {type : FieldType} {text : String} {given : Plain},
      type.convert text = .ok given → given.WrittenAs value →
        ∃ shown, Value.ofPlain value = .ok shown ∧ shown ≠ .float (.nan 0) := by
    intro type text given hconvert hwritten
    have htype := (Plain.of?_writtenAs hwritten).trans (FieldType.of?_convert hconvert)
    cases value with
    | null => cases htype
    | list items | mapping entries =>
      cases htype
      cases hconvert
    | float number =>
      refine ⟨.float number, rfl, ?_⟩
      rintro ⟨⟩
      rcases hwritten with ⟨hgiven, hsame⟩ | ⟨mark, -, hsame⟩
      · exact hgiven hsame.symm
      · cases hsame
    | bool | int | str => exact ⟨_, rfl, Value.noConfusion⟩
  cases hwrites with
  | setField _ hconvert hvalue => exact hconverted hconvert hvalue
  | forceSetField _ hconvert hvalue => exact hconverted hconvert hvalue
  | delete => exact ⟨.boolean true, rfl, Value.noConfusion⟩

end Edit.Writes

theorem Record.field?_setField_of_ne {record : Record} {name other : String} (hother : other ≠ name)
    (value : Plain) : (record.setField other value).field? name = record.field? name := by
  have hkeys : ¬ (Plain.str other == .str name) = true := fun hsame =>
    hother (Plain.str.inj (Plain.str_beq_iff.mp hsame)).symm
  rw [Record.field?, Record.setField, Entries.get?_put_of_sharp (Plain.isKey_str name).sharp,
    if_neg hkeys]
  rfl

variable {repository : Repository} {before after : World} {id name : String}

/-- An edit that does not write a field of records with an identifier leaves the field of each
of them as it is. -/
theorem Edit.Leads.field?_eq {target ref : RecordRef} {edit : Edit} {pool later : Pool}
    {mod patched : Mod} (hleads : edit.Leads target pool mod later patched)
    (href : pool.Holds ref)
    (hspares : (pool.get target).id = (pool.get ref).id → edit.field? ≠ some name) :
    (later.get ref).field? name = (pool.get ref).field? name := by
  cases hleads with
  | deleted | skipped => rfl
  | @wrote made own reached _ hwrites _ hreaches =>
    obtain ⟨hheld, hsame⟩ := hreaches.keptIn ref href
    rw [Pool.get_writeBoth hheld, hsame]
    split
    · rename_i hreached
      have hid : (pool.get target).id = (pool.get ref).id := by
        rcases hreached with rfl | rfl
        · cases hreaches with
          | found hfind => exact (Mod.mem_of_find? hfind).2.symm
          | made _ => exact absurd href pool.not_holds_nextRef
        · rfl
      cases made with
      | link written => rfl
      | field other value =>
        refine Record.field?_setField_of_ne ?_ value
        rintro rfl
        exact hspares hid hwrites.field?_eq
    · rfl
  | dropped hedit =>
    subst hedit
    by_cases hsame : target = ref
    · subst hsame
      rw [Pool.get_modify_self _ href]
      refine Record.field?_setField_of_ne ?_ _
      rintro rfl
      exact hspares rfl rfl
    · rw [Pool.get_modify_of_ne _ hsame]

/-- An edit that writes a field of a record writes it to the record and to the version that the
mod has then, if it has one. -/
theorem Edit.Leads.wrote_field {target : RecordRef} {edit : Edit} {pool later : Pool}
    {mod patched : Mod} (hleads : edit.Leads target pool mod later patched)
    (hfield : edit.field? = some name) (hheld : ∀ own ∈ mod.records, pool.Holds own)
    (htarget : pool.Holds target) (hundeleted : (pool.get target).id ∉ mod.deleted) :
    ∃ value, edit.Writes (pool.get target) (.field name value) ∧
      (later.get target).field? name = some value ∧
      ((pool.get target).id ∈ patched.deleted ∨ ∃ own ∈ patched.records, later.Holds own ∧
        (later.get own).id = (pool.get target).id ∧ (later.get own).field? name = some value) := by
  cases hleads with
  | deleted _ hdeleted => exact absurd hdeleted hundeleted
  | skipped hedit =>
    subst hedit
    cases hfield
  | @wrote made own reached _ hwrites _ hreaches =>
    obtain ⟨value, rfl⟩ := hwrites.of_field? hfield
    obtain ⟨htargetReached, hsame⟩ := hreaches.keptIn target htarget
    have hown : reached.Holds own ∧ own ∈ patched.records ∧
        (reached.get own).id = (pool.get target).id := by
      cases hreaches with
      | found hfind =>
        obtain ⟨hmem, hid⟩ := Mod.mem_of_find? hfind
        exact ⟨hheld own hmem, hmem, hid⟩
      | made _ =>
        refine ⟨pool.holds_add_nextRef _, List.mem_append_right _ (List.mem_singleton_self _), ?_⟩
        rw [Pool.get_add_nextRef]
    obtain ⟨hownReached, hmem, hid⟩ := hown
    refine ⟨value, hwrites, ?_, Or.inr ⟨own, hmem, ?_, ?_, ?_⟩⟩
    · rw [Pool.get_writeBoth htargetReached, if_pos (Or.inr rfl)]
      exact Record.field?_setField_self ..
    · unfold Pool.writeBoth
      split <;> simpa only [Pool.holds_modify] using hownReached
    · rw [Pool.get_writeBoth hownReached, if_pos (Or.inl rfl), Record.Edit.id_apply, hid]
    · rw [Pool.get_writeBoth hownReached, if_pos (Or.inl rfl)]
      exact Record.field?_setField_self ..
  | dropped hedit =>
    subst hedit
    cases hfield
    refine ⟨.bool true, .delete, ?_, Or.inl (List.mem_append_right _ (List.mem_singleton_self _))⟩
    rw [Pool.get_modify_self _ htarget]
    exact Record.field?_setField_self ..

/-- An edit changes no records but the one it is asked for and one of the mod. -/
theorem Edit.Leads.get_eq {target ref : RecordRef} {edit : Edit} {pool later : Pool}
    {mod patched : Mod} (hleads : edit.Leads target pool mod later patched)
    (href : pool.Holds ref) (hother : ref ≠ target) (houtside : ref ∉ mod.records) :
    later.get ref = pool.get ref := by
  cases hleads with
  | deleted | skipped => rfl
  | @wrote made own reached _ _ _ hreaches =>
    obtain ⟨hheld, hsame⟩ := hreaches.keptIn ref href
    have hown : ref ≠ own := by
      rintro rfl
      cases hreaches with
      | found hfind => exact houtside (Mod.mem_of_find? hfind).1
      | made _ => exact pool.not_holds_nextRef href
    rw [Pool.get_writeBoth hheld, if_neg (not_or.mpr ⟨hown, hother⟩), hsame]
  | dropped => exact pool.get_modify_of_ne _ hother.symm

/-! ## Moves that write no field of some records -/

/-- A move that writes a field of a record with an identifier. -/
def Move.Rewrites (pool : Pool) (id name : String) : Move → Prop
  | edited target edit => (pool.get target).id = id ∧ edit.field? = some name
  | _ => False

/-- Moves of which none writes a field of a record with an identifier. -/
inductive Trail.Spares (repository : Repository) (id name : String) :
    World → List Move → World → Prop
  | done (world : World) : Spares repository id name world [] world
  | step {before between after : World} {move : Move} {rest : List Move}
      (hmove : move.Leads repository before between)
      (hspares : ¬ move.Rewrites before.pool id name)
      (hrest : Spares repository id name between rest after) :
      Spares repository id name before (move :: rest) after

theorem Move.field?_eq {move : Move} (hmove : move.Leads repository before after)
    (hspares : ¬ move.Rewrites before.pool id name) {ref : RecordRef}
    (href : before.pool.Holds ref) (hid : (before.pool.get ref).id = id) :
    (after.pool.get ref).field? name = (before.pool.get ref).field? name := by
  have hunchanged : ∀ {later : Pool}, before.pool.KeptIn later → after.pool = later →
      (after.pool.get ref).field? name = (before.pool.get ref).field? name := by
    rintro later hkept rfl
    rw [(hkept ref href).2]
  cases move with
  | rested => exact hunchanged (Pool.KeptIn.refl _) hmove.1
  | placed mods kind => exact hunchanged (Merge.keptIn_place _ before.pool) hmove.2.2
  | edited target edit =>
    obtain ⟨mod, bench, hmod, hbench, rfl⟩ := Eval.yields_onActive.mp hmove
    exact (Edit.leads_of_yields hbench).field?_eq href fun hsame hfield =>
      hspares ⟨hsame.trans hid, hfield⟩
  | cloned source count =>
    obtain ⟨clones, hyields⟩ := hmove
    obtain ⟨mod, -, -, early, late, hearly, -, hlate, hclones⟩ := World.clones_of_yields hyields
    exact hunchanged (hearly ▸ hclones.kept) hlate.symm
  | depended entries | referred entries =>
    obtain ⟨mod, bench, -, hbench, rfl⟩ := Eval.yields_onActive.mp hmove
    obtain rfl := Work.yields_modify.mp hbench
    rfl

namespace Trail.Spares

variable {moves : List Move}

theorem trail (hspares : Spares repository id name before moves after) :
    Trail repository before moves after := by
  induction hspares with
  | done world => exact .done world
  | step hmove _ _ ih => exact .step hmove ih

theorem field?_eq (hspares : Spares repository id name before moves after) {ref : RecordRef}
    (href : before.pool.Holds ref) (hid : (before.pool.get ref).id = id) :
    (after.pool.get ref).field? name = (before.pool.get ref).field? name := by
  induction hspares with
  | done world => rfl
  | step hmove hspares _ ih =>
    have hretains := (Move.onward hmove).retains
    rw [ih (hretains.holds ref href) ((hretains.id ref href).trans hid)]
    exact Move.field?_eq hmove hspares href hid

end Trail.Spares

/-! ## Runs -/

/-- The records of the mod being patched are in the pool. -/
def World.OwnHeld (world : World) : Prop :=
  ∀ mod, world.active = some mod → ∀ own ∈ mod.records, world.pool.Holds own

theorem World.OwnHeld.move {move : Move} (hown : before.OwnHeld)
    (hmove : move.Leads repository before after) : after.OwnHeld := by
  have hretains := (Move.onward hmove).retains
  have hsame : ∀ mod, before.active = some mod → ∀ own ∈ mod.records, after.pool.Holds own :=
    fun mod hmod own hmem => hretains.holds own (hown mod hmod own hmem)
  cases move with
  | rested => exact fun mod hmod => hsame mod (hmove.2 ▸ hmod)
  | placed mods kind => exact fun mod hmod => hsame mod (hmove.2.1 ▸ hmod)
  | edited target edit =>
    obtain ⟨mod, bench, hmod, hbench, rfl⟩ := Eval.yields_onActive.mp hmove
    rintro _ ⟨⟩ own hmem
    rcases (edit.writesTo target _ _ _ hbench).records own hmem with hold | hnew
    · exact hsame mod hmod own hold
    · exact hnew.1
  | cloned source count =>
    obtain ⟨clones, hyields⟩ := hmove
    obtain ⟨mod, hmod, hafter, early, late, -, -, hlate, hclones⟩ :=
      World.clones_of_yields hyields
    intro patched hpatched own hmem
    obtain rfl := Option.some.inj (hafter.symm.trans hpatched)
    rcases List.mem_append.mp hmem with hold | hclone
    · exact hsame mod hmod own hold
    · exact hlate ▸ (hclones.fresh own hclone).2
  | depended entries | referred entries =>
    obtain ⟨mod, bench, hmod, hbench, rfl⟩ := Eval.yields_onActive.mp hmove
    obtain rfl := Work.yields_modify.mp hbench
    rintro _ ⟨⟩
    exact hsame mod hmod

/-- What an edit writes to a field of a record stays there while no field of that name is
written to a record with its identifier. -/
theorem Trail.Spares.edit_stays {target : RecordRef} {edit : Edit} {between written : World}
    {late : List Move} (hedit : (Move.edited target edit).Leads repository between written)
    (hlate : Spares repository (between.pool.get target).id name written late after)
    (hfield : edit.field? = some name) (hown : between.OwnHeld)
    (htarget : between.pool.Holds target)
    (hundeleted : ∀ mod, between.active = some mod →
      (between.pool.get target).id ∉ mod.deleted) :
    ∃ value, edit.Writes (between.pool.get target) (.field name value) ∧
      after.Shows target name value ∧ after.Stores (between.pool.get target).id name value := by
  have hretains := (Move.onward hedit).retains
  obtain ⟨mod, bench, hmod, hbench, rfl⟩ := Eval.yields_onActive.mp hedit
  obtain ⟨value, hwrites, hshown, hstored⟩ := (Edit.leads_of_yields hbench).wrote_field hfield
    (hown mod hmod) htarget (hundeleted mod hmod)
  obtain ⟨shown, hofPlain, hmarked⟩ := hwrites.ofPlain
  obtain ⟨patched, hpatched, honward⟩ := hlate.trail.onward.active bench.mod rfl
  refine ⟨value, hwrites, World.shows_of_field ?_ hofPlain hmarked, patched, hpatched, ?_⟩
  · rw [hlate.field?_eq (hretains.holds target htarget) (hretains.id target htarget)]
    exact hshown
  · rcases hstored with hdeleted | ⟨own, hmem, hheld, hid, hvalue⟩
    · exact Or.inl (honward.deleted hdeleted)
    · rcases honward.records own hmem hheld with hkept | hdeleted
      · refine Or.inr ⟨own, hkept, (hlate.trail.onward.retains.id own hheld).trans hid, ?_⟩
        rw [hlate.field?_eq hheld hid]
        exact hvalue
      · exact Or.inl (hid ▸ hdeleted)

/-- A line that looks the weapon up. -/
def spotting : String := "first := (all)(A:WEAPON|true())"

/-- A line that changes the weapon. -/
def whetting : String := "first -> SetField(\"damage\", \"9\")"

theorem whetting_reads :
    (armourer.reset.start sharper).Passes [spotting] ∧
      Statement.ofLine (armourer.afterLines sharper [spotting]).names (stripComment whetting) =
        .ok (.setting ⟨[⟨"base", ⟨1⟩⟩]⟩ "damage" "9") ∧
      (armourer.afterLines sharper [spotting]).lineFault? whetting = none := by
  refine ⟨⟨Option.isNone_iff_eq_none.mp (by decide +kernel), by decide +kernel, trivial⟩, ?_,
    Option.isNone_iff_eq_none.mp (by decide +kernel)⟩
  have hsetting : ((Statement.ofLine (armourer.afterLines sharper [spotting]).names
      (stripComment whetting)).toOption.bind Statement.setting?) =
        some (⟨[⟨"base", ⟨1⟩⟩]⟩, "damage", "9") := by
    decide +kernel
  revert hsetting
  generalize Statement.ofLine (armourer.afterLines sharper [spotting]).names
    (stripComment whetting) = outcome
  intro hsetting
  cases outcome with
  | error fault => cases hsetting
  | ok statement => rw [Statement.eq_setting hsetting]

/-- What an expression gives for a record, as it is displayed. -/
def Patcher.displayed? (patcher : Patcher) (text : String) (ref : RecordRef) : Option String :=
  match Node.ofText patcher.names text with
  | .error _ => none
  | .ok node =>
    match ((node.evaluate patcher.setting (some ref)).run patcher.world).1 with
    | .error _ => none
    | .ok value => some (value.display patcher.world.pool.label)

/-- A script that looks the weapon up twice, changes it in the first group and looks it up
again. -/
def sharpening : List String :=
  [spotting, "second := (all)(A:WEAPON|true())", whetting, "third := (all)(A:WEAPON|true())"]

end Patchwork
