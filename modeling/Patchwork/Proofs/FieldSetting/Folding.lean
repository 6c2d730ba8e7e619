import Patchwork.Proofs.FieldSetting.Accumulating
import Patchwork.Proofs.Text.Numerals

/-!
# Setting a field from other records

The procedure that sets a field from other records goes through the sources for each target.  What
a target has in the end is a fold over all of its sources in order, and under the pairwise form over
the one at its own position.
-/

namespace Patchwork

open Eval

namespace Procedure

/-! ## Which sources a target has -/

/-- The sources of the target at a position: all of them, or the one at the same position. -/
def sourcesAt (sources : Group) (pairwise : Bool) (position : Nat) : List RecordRef :=
  if pairwise then sources.records[position]?.toList else sources.records

/-- The targets of a procedure, each with its sources. -/
def turns (targets sources : Group) (pairwise : Bool) : List (RecordRef × List RecordRef) :=
  targets.records.mapIdx fun position target => (target, sourcesAt sources pairwise position)

theorem zip_eq_flatMap {First Second : Type} (firsts : List First) (seconds : List Second) :
    firsts.zip seconds =
      (firsts.mapIdx fun position first => (first, seconds[position]?.toList)).flatMap
        fun turn => turn.2.map (turn.1, ·) := by
  induction firsts generalizing seconds with
  | nil => rfl
  | cons first rest ih =>
    cases seconds with
    | nil =>
      refine (List.flatMap_eq_nil_iff.mpr fun turn hturn => ?_).symm
      obtain ⟨_, _, rfl⟩ := List.mem_mapIdx.mp hturn
      rfl
    | cons second others =>
      rw [List.zip_cons_cons, List.mapIdx_cons, List.flatMap_cons, ih others]
      rfl

section

variable {targets sources : Group} {pairwise : Bool} {position : Nat}

theorem mem_of_mem_sourcesAt {source : RecordRef}
    (hsource : source ∈ sourcesAt sources pairwise position) : source ∈ sources.records := by
  unfold sourcesAt at hsource
  split at hsource
  · exact List.mem_of_getElem? (Option.mem_toList.mp hsource)
  · exact hsource

theorem map_fst_turns : (turns targets sources pairwise).map Prod.fst = targets.records := by
  refine List.ext_getElem? fun position => ?_
  rw [turns, List.getElem?_map, List.getElem?_mapIdx, Option.map_map]
  exact Option.map_id'

theorem mem_turns {turn : RecordRef × List RecordRef} :
    turn ∈ turns targets sources pairwise ↔
      ∃ position, targets.records[position]? = some turn.1 ∧
        sourcesAt sources pairwise position = turn.2 := by
  rw [turns, List.mem_mapIdx]
  constructor
  · rintro ⟨position, hless, rfl⟩
    exact ⟨position, List.getElem?_eq_getElem hless, rfl⟩
  · rintro ⟨position, htarget, hsources⟩
    obtain ⟨hless, htarget⟩ := List.getElem?_eq_some_iff.mp htarget
    exact ⟨position, hless, Prod.ext htarget hsources⟩

variable {paired : List (RecordRef × RecordRef)}
  (hpaired : pairs targets sources pairwise = .ok paired)

include hpaired

/-- The pairs that a procedure works on are those of the turns. -/
theorem pairs_eq_turns :
    paired = (turns targets sources pairwise).flatMap fun turn => turn.2.map (turn.1, ·) := by
  cases pairwise with
  | true =>
    rw [pairs, if_pos rfl] at hpaired
    split at hpaired
    · cases hpaired
      exact zip_eq_flatMap _ _
    · cases hpaired
  | false =>
    cases hpaired
    have hturns : turns targets sources false =
        targets.records.map fun target => (target, sources.records) := by
      refine List.ext_getElem? fun position => ?_
      rw [turns, List.getElem?_mapIdx, List.getElem?_map]
      rfl
    rw [hturns, List.flatMap_map]

/-- Each target has a source if there are any. -/
theorem sourcesAt_ne_nil (hsome : sources.records ≠ []) {target : RecordRef}
    (htarget : targets.records[position]? = some target) :
    sourcesAt sources pairwise position ≠ [] := by
  cases pairwise with
  | true =>
    rw [pairs, if_pos rfl] at hpaired
    split at hpaired
    · rename_i hsize
      obtain ⟨hless, -⟩ := List.getElem?_eq_some_iff.mp htarget
      rw [Group.size_eq_length_records, hsize, ← Group.size_eq_length_records] at hless
      rw [sourcesAt, if_pos rfl, List.getElem?_eq_getElem hless]
      exact List.cons_ne_nil _ _
    · cases hpaired
  | false => exact hsome

end

end Procedure

/-! ## Adding up -/

/-- A sum of the parameter of a lambda and a field of the lambda's record. -/
def Node.adding (parameter field : String) : Node :=
  .binary .plus (.parameter parameter) (.call .getField [.literal (.string field)])

theorem FieldType.convert_integerText (number : Int) :
    FieldType.int.convert (integerText number) = .ok (.int number) := by
  have hread : integerOfText? (integerText number) = some number := by
    rw [integerOfText?, trim_integerText, Numeral.integer?_integerText]
  have hnumber : integerOfText (integerText number) = .ok number := by
    unfold integerOfText
    rw [hread]
  unfold convert
  dsimp only
  rw [hnumber]
  rfl

namespace Procedure

variable {setting : Setting} {before : World} {mod : Mod} {parameter field : String}

/-- A field of an integer is added to an integer. -/
theorem yields_adding (hmod : before.active = some mod) {source : RecordRef}
    {start amount : Int} (hamount : (before.pool.get source).field? field = some (.int amount)) :
    (valueFromSource setting parameter (.adding parameter field) (.int start) source).Yields before
      (.int (start + amount)) { before with marks := before.marks + 1 } := by
  let marked : World := { before with marks := before.marks + 1 }
  have hscope : Scope.value [(parameter, .integer start)] parameter = pure (.integer start) := by
    simp [Scope.value, Entries.get?]
  have hfield : (Function.getField.apply (some source) [fun _ => return .string field]).Yields
      marked (.integer amount) marked := by
    refine yields_bind.mpr ⟨.integer amount, marked, ?_, yields_pure.mpr ⟨rfl, rfl⟩⟩
    refine yields_bind.mpr ⟨source, marked, yields_pure.mpr ⟨rfl, rfl⟩, ?_⟩
    refine yields_bind.mpr ⟨_, marked, yields_pure.mpr ⟨rfl, rfl⟩, ?_⟩
    refine yields_bind.mpr ⟨field, marked, yields_labelled.mpr ⟨rfl, rfl⟩, ?_⟩
    refine yields_bind.mpr ⟨_, marked, yields_record.mpr ⟨rfl, rfl⟩, ?_⟩
    simp only [marked, hamount]
    exact yields_settle.mpr ⟨rfl, rfl⟩
  have hcall : ((Closure.mk (before.marks + 1) parameter (.adding parameter field)
      (some source)).call setting [.integer start]).Yields marked (.integer (start + amount))
        marked := by
    refine yields_bind.mpr ⟨.integer (start + amount), marked, ?_, yields_pure.mpr ⟨rfl, rfl⟩⟩
    refine yields_bind.mpr ⟨.integer start, marked, ?_, ?_⟩
    · change (Scope.value [(parameter, .integer start)] parameter).Yields _ _ _
      rw [hscope]
      exact yields_pure.mpr ⟨rfl, rfl⟩
    · refine yields_bind.mpr ⟨.integer amount, marked, ?_, ?_⟩
      · exact yields_bind.mpr ⟨_, marked, rfl, hfield⟩
      · exact yields_bind.mpr ⟨.integer (start + amount), marked, yields_labelled.mpr ⟨rfl, rfl⟩,
          yields_pure.mpr ⟨rfl, rfl⟩⟩
  have htext : (textFromSource setting parameter (.adding parameter field) (.int start)
      source).Yields before (integerText (start + amount)) marked := by
    refine yields_bind.mpr ⟨_, marked, yields_nextMark.mpr ⟨rfl, rfl⟩, ?_⟩
    refine yields_bind.mpr ⟨_, marked, yields_settle.mpr ⟨rfl, rfl⟩, ?_⟩
    refine yields_bind.mpr ⟨_, marked, hcall, ?_⟩
    exact yields_bind.mpr ⟨_, marked, yields_labels.mpr ⟨rfl, rfl⟩, yields_pure.mpr ⟨rfl, rfl⟩⟩
  refine yields_bind.mpr ⟨_, marked, htext, ?_⟩
  refine yields_bind.mpr ⟨_, marked, yields_settle.mpr ⟨FieldType.convert_integerText _, rfl⟩, ?_⟩
  have hthere : marked.active = some mod := hmod
  exact (yields_onActive_mark hthere).mpr ⟨rfl, rfl⟩

/-- Fields of integers are added up. -/
theorem yields_adding_up (setting : Setting) (parameter : String)
    (hmod : before.active = some mod) {chosen : List RecordRef} {amount : RecordRef → Int}
    (hamount : ∀ source ∈ chosen,
      (before.pool.get source).field? field = some (.int (amount source))) (start : Int) :
    (chosen.foldlM (valueFromSource setting parameter (.adding parameter field))
      (.int start)).Yields before (.int (start + (chosen.map amount).sum))
        { before with marks := before.marks + chosen.length } := by
  induction chosen generalizing start before with
  | nil => exact yields_pure.mpr ⟨by rw [List.map_nil, List.sum_nil, Int.add_zero], rfl⟩
  | cons source rest ih =>
    obtain ⟨hsource, hrest⟩ := List.forall_mem_cons.mp hamount
    let marked : World := { before with marks := before.marks + 1 }
    have hthere : marked.active = some mod := hmod
    have hlater := ih hthere hrest (start + amount source)
    rw [List.foldlM_cons, List.map_cons, List.sum_cons, ← Int.add_assoc]
    refine yields_bind.mpr ⟨_, marked, yields_adding hmod hsource, ?_⟩
    rw [List.length_cons, Nat.add_comm rest.length, ← Nat.add_assoc]
    exact hlater

/-- What integers are folded to is their sum. -/
theorem Folded.eq_sum {state : Patcher} {target : RecordRef} {chosen : List RecordRef}
    {written : Plain} {other : String} {start : Int} {amount : RecordRef → Int}
    (hfolded : Folded state field parameter (.adding parameter other) target chosen written)
    (hmod : state.world.active = some mod)
    (hstart : (state.world.pool.get target).field? field = some (.int start))
    (hamount : ∀ source ∈ chosen,
      (state.world.pool.get source).field? other = some (.int (amount source))) :
    written = .int (start + (chosen.map amount).sum) := by
  obtain ⟨initial, final, after, hinitial, hfold, hmarks⟩ := hfolded
  cases hstart.symm.trans hinitial
  have hsum := yields_adding_up state.setting parameter hmod hamount start
  rw [Yields] at hfold hsum
  cases hfold.symm.trans hsum
  cases written <;> cases hmarks
  rfl

end Procedure

/-- Setting a field from other records folds over all sources of each target.  What is written to a
target and to the version that the mod being patched has of it is the fold, in the order of the
sources and from the value that the target had, of the step that calls the lambda with a source as
its record; nothing else of the target and nothing of a source changes.  In particular integers
are added up. -/
theorem setFieldFromOther_folds {patcher state : Patcher} {mod : Mod} {lines : List String}
    (hheld : ∀ own ∈ mod.records, patcher.world.pool.Holds own)
    (hmarked : ∀ ref, patcher.world.pool.Holds ref →
      (patcher.world.pool.get ref).MarkedWithin patcher.world.marks)
    (hstate : state = patcher.afterLines mod lines) {lambdaText parameter : String} {body : Node}
    (hlambda : Node.ofText state.names lambdaText = .ok (.lambda parameter body))
    (hquiet : body.Quiet state.environment) {targets sources : Group}
    (htargets : targets.Apart state.world.pool)
    (hsources : ∀ source ∈ sources.records, state.world.pool.Holds source)
    (hsome : sources.records ≠ [])
    (hapart : ∀ target ∈ targets.records, ∀ source ∈ sources.records,
      (state.world.pool.get target).id ≠ (state.world.pool.get source).id)
    {field : String} {pairwise : Bool} {record : Option RecordRef} {result : Value} {after : World}
    (hyields : ((Node.pipe (.group targets) .setFieldFromOther
      [.group sources, .literal (.string field), .lambda parameter body] pairwise).evaluate
        state.setting record).Yields state.world result after) :
    ∃ active patched, state.world.active = some active ∧ after.active = some patched ∧
      (∀ source ∈ sources.records, after.pool.get source = state.world.pool.get source ∧
        patched.version? after.pool (state.world.pool.get source).id =
          active.version? state.world.pool (state.world.pool.get source).id) ∧
      ∀ position target, targets.records[position]? = some target →
        Procedure.sourcesAt sources pairwise position ≠ [] ∧ ∃ written,
          Procedure.Folded state field parameter body target
            (Procedure.sourcesAt sources pairwise position) written ∧
          after.pool.get target = (state.world.pool.get target).setField field written ∧
          patched.version? after.pool (state.world.pool.get target).id =
            some (((active.version? state.world.pool (state.world.pool.get target).id).getD
              (Merge.overrideOf (state.world.pool.get target) active.name)).setField field
                written) ∧
          ∀ (other : String) (start : Int) (amount : RecordRef → Int),
            body = .adding parameter other →
            (state.world.pool.get target).field? field = some (.int start) →
            (∀ source ∈ Procedure.sourcesAt sources pairwise position,
              (state.world.pool.get source).field? other = some (.int (amount source))) →
            written =
              .int (start + ((Procedure.sourcesAt sources pairwise position).map amount).sum) := by
  have hgrounded : state.Grounded := hstate ▸ Patcher.grounded_afterLines hmarked mod lines
  have hown : state.world.OwnHeld := hstate ▸ afterLines_ownHeld hheld lines
  have hbody : body.QuietAt state :=
    ⟨hquiet, fun during => (Node.lambda.inj (hgrounded.within_ofText hlambda during)).2⟩
  obtain ⟨-, active, paired, worked, hactive, hpaired, hworked, hend⟩ :=
    (Node.yields_pipe_of_two rfl).mp hyields
  have hrefs : state.world.HasTargets targets.records :=
    ⟨active, hactive, htargets.targets (hown active hactive)⟩
  have haside : ∀ source ∈ sources.records, state.world.Aside targets.records source :=
    fun source hsource => ⟨hsources source hsource, fun target htarget =>
      hapart target htarget source hsource⟩
  have hturns : ∀ turn ∈ Procedure.turns targets sources pairwise,
      turn.1 ∈ targets.records ∧ ([] : List Record.Edit) = [] := by
    intro turn hturn
    obtain ⟨position, htarget, -⟩ := Procedure.mem_turns.mp hturn
    exact ⟨List.mem_of_getElem? htarget, rfl⟩
  have hnodup : ((Procedure.turns targets sources pairwise).map Prod.fst).Nodup := by
    rw [Procedure.map_fst_turns]
    exact htargets.nodup
  have hchosen : ∀ turn ∈ Procedure.turns targets sources pairwise, turn.2 ≠ [] ∧
      ∀ source ∈ turn.2, state.world.Aside targets.records source := by
    intro turn hturn
    obtain ⟨position, htarget, hturn⟩ := Procedure.mem_turns.mp hturn
    rw [← hturn]
    exact ⟨Procedure.sourcesAt_ne_nil hpaired hsome htarget, fun source hsource =>
      haside source (Procedure.mem_of_mem_sourcesAt hsource)⟩
  rw [Procedure.pairs_eq_turns hpaired] at hworked
  obtain ⟨edits, hwritten, -, hfolded⟩ := Procedure.folded_of_forM hgrounded hrefs hbody
    hrefs.written_refl hturns hnodup hchosen hworked
  have hlast : World.Amended targets.records edits state.world after :=
    (hwritten.amended.trans (Procedure.amended_conclude hend
      (hrefs.amended hwritten.amended))).congr fun _ _ => List.append_nil _
  have hkept : ∀ source ∈ sources.records, after.pool.get source = state.world.pool.get source :=
    fun source hsource => hlast.get_aside (haside source hsource)
  obtain ⟨other, patched, hother, hpatched, hamended⟩ := hlast
  obtain rfl := Option.some.inj (hactive.symm.trans hother)
  refine ⟨active, patched, hactive, hpatched, fun source hsource =>
    ⟨hkept source hsource, hamended.others _ (haside source hsource).2⟩, ?_⟩
  intro position target htarget
  have hmem : target ∈ targets.records := List.mem_of_getElem? htarget
  obtain ⟨written, hmore, hedited, hfold⟩ :=
    hfolded (target, Procedure.sourcesAt sources pairwise position)
      (Procedure.mem_turns.mpr ⟨position, htarget, rfl⟩)
  refine ⟨Procedure.sourcesAt_ne_nil hpaired hsome htarget, written, hfold, ?_, ?_, ?_⟩
  · rw [hamended.target target hmem, hedited]
  · rw [hamended.version target hmem, Mod.editedVersion_of_ne_nil hmore, hedited]
  · rintro other start amount rfl hstart hamount
    exact hfold.eq_sum hactive hstart hamount

/-- The integer that a field of a record is, if it is one. -/
def Record.integerField? (record : Record) (name : String) : Option Int :=
  match record.field? name with
  | some (.int number) => some number
  | _ => none

theorem Record.field?_of_integerField? {record : Record} {name : String} {number : Int}
    (hfield : record.integerField? name = some number) :
    record.field? name = some (.int number) := by
  unfold integerField? at hfield
  split at hfield
  · cases hfield
    assumption
  · cases hfield

/-- A mod with a wagon and two pieces of cargo. -/
def freight : Pool × Mod :=
  Mod.create {} "base" [
    { id := "1-base", kind := "WAGON", isNew := true, fields := [(.str "load", .int 1)] },
    { id := "2-base", kind := "CARGO", isNew := true, fields := [(.str "weight", .int 5)] },
    { id := "3-base", kind := "CARGO", isNew := true, fields := [(.str "weight", .int 7)] }] [] []

/-- A patcher that has loaded the mod. -/
def carter : Patcher :=
  { repository := ⟨[("base", freight.2)]⟩, world := { pool := freight.1 } }

/-- The patcher when the wagon and the cargo have been looked up. -/
def loading : Patcher :=
  carter.afterLines sharper
    ["wagons := (all)(A:WAGON|true())", "cargo := (all)(A:CARGO|true())"]

/-- The wagon and the cargo at their places. -/
def wagon : Group := ⟨[⟨"base", ⟨3⟩⟩]⟩

/-- The cargo at its places. -/
def cargo : Group := ⟨[⟨"base", ⟨4⟩⟩, ⟨"base", ⟨5⟩⟩]⟩

/-- A procedure call that adds the weight of the cargo to the load of the wagon. -/
def heaving : Node :=
  .pipe (.group wagon) .setFieldFromOther
    [.group cargo, .literal (.string "load"), .lambda "x" (.adding "x" "weight")] false

theorem loading_adds_up :
    ∃ after, (heaving.evaluate loading.setting none).Yields loading.world (.group wagon) after ∧
      after.pool.get ⟨3⟩ = (loading.world.pool.get ⟨3⟩).setField "load" (.int 13) ∧
      after.pool.get ⟨4⟩ = loading.world.pool.get ⟨4⟩ := by
  have hheld : ∀ own ∈ sharper.records, carter.world.pool.Holds own := List.forall_mem_nil _
  have hmarked : ∀ ref, carter.world.pool.Holds ref →
      (carter.world.pool.get ref).MarkedWithin carter.world.marks := by
    rintro ⟨index⟩ hless mark -
    have hindex : index < 3 := hless
    obtain rfl | rfl | rfl : index = 0 ∨ index = 1 ∨ index = 2 := by omega
    · rfl
    · rfl
    · rfl
  have hlambda : ∀ (environment : Environment) (labels : Labels),
      Node.ofText ⟨environment, labels, []⟩ "x => x + GetField(\"weight\")" =
        .ok (.lambda "x" (.adding "x" "weight")) := by
    intro environment labels
    cbv
  have hsize : loading.world.pool.records.size = 6 := by decide +kernel
  have hholds : ∀ ref : RecordRef, ref.index < 6 → loading.world.pool.Holds ref :=
    fun ref hless => Nat.lt_of_lt_of_eq hless hsize.symm
  have htargets : wagon.Apart loading.world.pool :=
    ⟨fun ref hmem => hholds ref (by revert ref; decide), by decide +kernel⟩
  have hsources : ∀ source ∈ cargo.records, loading.world.pool.Holds source :=
    fun ref hmem => hholds ref (by revert ref; decide)
  have hapart : ∀ target ∈ wagon.records, ∀ source ∈ cargo.records,
      (loading.world.pool.get target).id ≠ (loading.world.pool.get source).id := by
    decide +kernel
  have hload : (loading.world.pool.get ⟨3⟩).field? "load" = some (.int 1) :=
    Record.field?_of_integerField? (by decide +kernel)
  have hcrate : (loading.world.pool.get ⟨4⟩).field? "weight" = some (.int 5) :=
    Record.field?_of_integerField? (by decide +kernel)
  have hbarrel : (loading.world.pool.get ⟨5⟩).field? "weight" = some (.int 7) :=
    Record.field?_of_integerField? (by decide +kernel)
  have hok : ((heaving.evaluate loading.setting none).run loading.world).1.isOk = true := by
    decide +kernel
  obtain ⟨value, after, hyields⟩ := exists_yields_of_isOk hok
  have hstate : loading = carter.afterLines sharper
      ["wagons := (all)(A:WAGON|true())", "cargo := (all)(A:CARGO|true())"] := rfl
  -- From here on it does not matter what the state is.
  generalize loading = state at hstate htargets hsources hapart hload hcrate hbarrel hyields ⊢
  obtain ⟨_, _, -, -, hkept, hset⟩ := setFieldFromOther_folds hheld hmarked hstate (hlambda _ _)
    ⟨trivial, trivial, trivial, trivial⟩ htargets hsources (by decide) hapart hyields
  obtain ⟨rfl, -⟩ := (Node.yields_pipe_of_two rfl).mp hyields
  obtain ⟨-, written, -, hget, -, hsum⟩ := hset 0 ⟨3⟩ rfl
  have hwritten := hsum "weight" 1 (fun source => if source = ⟨4⟩ then 5 else 7) rfl hload
    (List.forall_mem_cons.mpr ⟨hcrate, List.forall_mem_singleton.mpr hbarrel⟩)
  refine ⟨after, hyields, ?_, (hkept ⟨4⟩ (by decide)).1⟩
  rw [hget, hwritten]
  rfl

end Patchwork
