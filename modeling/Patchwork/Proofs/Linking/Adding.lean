import Patchwork.Proofs.Linking.Editing
import Patchwork.Proofs.Mod.Piping

/-!
# Adding links

Links are added for every pair of a target and a source, or for the pairs of equal position.  A
link that is there already is kept unless the procedure is forced.  What is written for a target
depends on the links it had before the procedure, since the sources have different identifiers.
-/

namespace Patchwork

/-! ## Constant arguments -/

/-- An expression that has one value, whatever it is evaluated against. -/
def Node.Constant (node : Node) (value : Value) : Prop :=
  ∀ deeper setting record, node.evaluateWith deeper setting record = pure value

namespace Node.Constant

theorem literal (value : Value) : (Node.literal value).Constant value :=
  fun _ _ _ => rfl

theorem group (group : Group) : (Node.group group).Constant (.group group) :=
  fun _ _ _ => rfl

/-- Elements that are constant make an array that is constant. -/
theorem array {elements : List Node} {values : List Value}
    (helements : List.Forall₂ Node.Constant elements values) :
    (Node.array elements).Constant (.array values) := by
  intro deeper setting record
  have hall : elementsWith deeper setting elements record = pure values := by
    induction helements with
    | nil => rfl
    | cons hhead _ ih =>
      rw [elementsWith, hhead, ih]
      rfl
  rw [Node.evaluateWith, hall]
  rfl

end Node.Constant

/-- The arguments after the source group: a category, and a payload unless the default is meant. -/
inductive LinkArguments : List Node → String → Option (List Int) → Prop
  | category {node : Node} {category : String} (hcategory : node.Constant (.string category)) :
      LinkArguments [node] category none
  | payload {node other : Node} {category : String} {payload : List Int}
      (hcategory : node.Constant (.string category))
      (hpayload : other.Constant (.array (payload.map .integer))) :
      LinkArguments [node, other] category (some payload)

/-- Whole numbers are read as they are. -/
theorem Value.expectIntegers_map_integer (labels : Labels) (purpose : String)
    (payload : List Int) :
    (Value.array (payload.map .integer)).expectIntegers labels purpose = .ok payload := by
  change (payload.map Value.integer).mapM _ = _
  induction payload with
  | nil => rfl
  | cons number rest ih =>
    rw [List.map_cons, List.mapM_cons, ih]
    rfl

namespace Procedure

/-- The procedure that adds links. -/
def linking (forced : Bool) : Procedure :=
  if forced then .forceAddExtraData else .addExtraData

theorem hasSource_linking (forced : Bool) : (linking forced).hasSource = true := by
  cases forced <;> rfl

/-- With constant arguments a pair is linked in one way only. -/
theorem onPair_linking (caller : Caller) (deeper : Deeper) (setting : Setting) (sources : Group)
    {nodes : List Node} {category : String} {payload : Option (List Int)}
    (harguments : LinkArguments nodes category payload) (forced : Bool)
    (target source : RecordRef) :
    (linking forced).onPair caller (argumentsWith deeper setting (.group sources :: nodes)) target
        source =
      Eval.onActive (Work.addLink target source category payload forced) := by
  have hforced : (linking forced).onPair caller
        (argumentsWith deeper setting (.group sources :: nodes)) target source =
      linkPair (linking forced) (argumentsWith deeper setting (.group sources :: nodes)) target
        source forced := by
    cases forced <;> rfl
  rw [hforced, linkPair]
  cases harguments with
  | category hcategory =>
    simp only [argumentsWith, Eval.argument, List.getElem?_cons_succ, List.getElem?_cons_zero,
      hcategory deeper setting, pure_bind]
    rfl
  | payload hcategory hpayload =>
    simp only [argumentsWith, Eval.argument, List.getElem?_cons_succ, List.getElem?_cons_zero,
      payloadArgument, hcategory deeper setting, hpayload deeper setting, pure_bind]
    simp only [Value.expectIntegers_map_integer]
    rfl

end Procedure

/-! ## Pairs -/

namespace Procedure

/-- A target and a source that go together: those of equal position, or all of them. -/
def Paired (targets sources : Group) (pairwise : Bool) (target source : RecordRef) : Prop :=
  if pairwise then
    ∃ position : Nat, targets.records[position]? = some target ∧
      sources.records[position]? = some source
  else target ∈ targets.records ∧ source ∈ sources.records

variable {targets sources : Group} {pairwise : Bool} {paired : List (RecordRef × RecordRef)}

theorem mem_pairs_iff (hpaired : pairs targets sources pairwise = .ok paired)
    {target source : RecordRef} :
    (target, source) ∈ paired ↔ Paired targets sources pairwise target source := by
  unfold pairs at hpaired
  cases pairwise with
  | true =>
    rw [if_pos rfl] at hpaired
    split at hpaired
    · cases hpaired
      simp [Paired, List.mem_iff_getElem?, List.getElem?_zip_eq_some]
    · cases hpaired
  | false =>
    rw [if_neg Bool.false_ne_true] at hpaired
    cases hpaired
    simp [Paired]

/-- No target is paired twice with sources of one identifier. -/
theorem nodup_pairs (hpaired : pairs targets sources pairwise = .ok paired) {pool : Pool}
    (htargets : targets.Apart pool) (hsources : sources.Apart pool) :
    (paired.map fun pair => (pair.1, (pool.get pair.2).id)).Nodup := by
  unfold pairs at hpaired
  cases pairwise with
  | true =>
    rw [if_pos rfl] at hpaired
    split at hpaired
    · next heven =>
      cases hpaired
      refine List.Nodup.of_map Prod.fst ?_
      rw [List.map_map]
      change ((targets.records.zip sources.records).map Prod.fst).Nodup
      rw [List.map_fst_zip (by simp [heven])]
      exact htargets.nodup
    · cases hpaired
  | false =>
    rw [if_neg Bool.false_ne_true] at hpaired
    cases hpaired
    have hproduct : ((targets.records.flatMap fun target => sources.records.map fun source =>
          (target, source)).map fun pair => (pair.1, (pool.get pair.2).id)) =
        targets.records ×ˢ (sources.records.map fun source => (pool.get source).id) := by
      rw [List.map_flatMap]
      simp only [List.map_map]
      change _ = targets.records.flatMap fun target => _
      simp only [List.map_map]
      rfl
    rw [hproduct]
    exact htargets.nodup.product hsources.distinct

end Procedure

/-! ## One link -/

/-- Links of a category to some identifiers are written, all with one payload. -/
def Record.linkEdits (category : String) (payload : List Int) (ids : List String) :
    List Record.Edit :=
  ids.map fun id => .link ⟨category, id, payload⟩

/-- The sources of some pairs to which a target gets a link: those it has no link to, or all of
them. -/
def Procedure.addedIds (pool : Pool) (category : String) (forced : Bool)
    (paired : List (RecordRef × RecordRef)) (target : RecordRef) : List String :=
  ((paired.filter fun pair => pair.1 = target).map fun pair => (pool.get pair.2).id).filter fun id =>
    forced || ((pool.get target).payload? category id).isNone

variable {refs : List RecordRef} {target source : RecordRef} {category : String}
  {payload : Option (List Int)} {forced : Bool}

/-- A link is added to a target. -/
theorem Work.amended_addLink {before after : Workbench}
    (htargets : Targets refs before.pool before.mod) (htarget : target ∈ refs)
    (htidy : (before.pool.get target).Tidy) {result : PUnit}
    (hyields : (addLink target source category payload forced).Yields before result after) :
    Amended refs (fun ref => Record.linkEdits category (payload.getD Record.defaultPayload)
      (Procedure.addedIds before.pool category forced [(target, source)] ref))
        before.pool before.mod after.pool after.mod := by
  obtain ⟨record, _, hrecord, hrest⟩ := yields_bind.mp hyields
  obtain ⟨rfl, rfl⟩ := yields_record.mp hrecord
  obtain ⟨linked, _, hlinked, hlink⟩ := yields_bind.mp hrest
  obtain ⟨rfl, rfl⟩ := yields_record.mp hlinked
  rw [Record.hasLink_eq_isSome htidy] at hlink
  split at hlink
  · next hskipped =>
    rw [yields_note] at hlink
    subst hlink
    refine (Amended.of_same rfl rfl rfl).congr fun ref _ => ?_
    by_cases hsame : target = ref
    · subst hsame
      obtain ⟨hunforced, hsome⟩ := Bool.and_eq_true_iff.mp hskipped
      rw [Bool.not_eq_true'] at hunforced
      rw [Option.isSome_iff_ne_none] at hsome
      simp [Procedure.addedIds, Record.linkEdits, hunforced, hsome]
    · simp [Procedure.addedIds, Record.linkEdits, hsame]
  · next hwritten =>
    let edit : Record.Edit :=
      .link ⟨category, (before.pool.get source).id, payload.getD Record.defaultPayload⟩
    have hwrite : (write target edit.apply).Yields before result after := hlink
    refine (amended_write htargets htarget hwrite).2.congr fun ref _ => ?_
    by_cases hsame : target = ref
    · subst hsame
      have hadded : (forced || ((before.pool.get target).payload? category
          (before.pool.get source).id).isNone) = true := by
        cases forced with
        | true => rfl
        | false => simpa using hwritten
      simp [Procedure.addedIds, Record.linkEdits, hadded, edit]
    · simp [Procedure.addedIds, Record.linkEdits, hsame, onlyOn_of_ne (Ne.symm hsame)]

/-- A link is added to a target by the mod being patched. -/
theorem World.HasTargets.amended_addLink {before after : World} (htargets : before.HasTargets refs)
    (htarget : target ∈ refs) (htidy : (before.pool.get target).Tidy) {result : PUnit}
    (hyields : (Eval.onActive (Work.addLink target source category payload forced)).Yields before
      result after) :
    World.Amended refs (fun ref => Record.linkEdits category
      (payload.getD Record.defaultPayload)
      (Procedure.addedIds before.pool category forced [(target, source)] ref)) before after := by
  obtain ⟨mod, hmod, htargets⟩ := htargets
  obtain ⟨other, bench, hother, hwork, rfl⟩ := Eval.yields_onActive.mp hyields
  obtain rfl := Option.some.inj (hmod.symm.trans hother)
  have hamended := Work.amended_addLink htargets htarget htidy hwork
  exact ⟨mod, bench.mod, hmod, rfl, hamended⟩

/-! ## Records with added links -/

namespace Record

theorem linkEdits_append (category : String) (payload : List Int) (first second : List String) :
    linkEdits category payload (first ++ second) =
      linkEdits category payload first ++ linkEdits category payload second :=
  List.map_append

theorem payload?_edited_linkEdits (record : Record) (category : String) (payload : List Int)
    (ids : List String) (here id : String) :
    (record.edited (linkEdits category payload ids)).payload? here id =
      if here = category ∧ id ∈ ids then some payload else record.payload? here id := by
  induction ids generalizing record with
  | nil => simp [linkEdits]
  | cons first rest ih =>
    have hstep := ih ((Edit.link ⟨category, first, payload⟩).apply record)
    rw [Edit.payload?_apply] at hstep
    change (((Edit.link ⟨category, first, payload⟩).apply record).edited
      (linkEdits category payload rest)).payload? here id = _
    rw [hstep, Edit.payload?]
    by_cases hhere : here = category
    · by_cases hid : id = first
      · simp [hhere, hid]
      · simp [hhere, hid, Ne.symm hid]
    · simp [hhere, Ne.symm hhere]

theorem tidy_edited {record : Record} (htidy : record.Tidy) (edits : List Edit) :
    (record.edited edits).Tidy := by
  induction edits generalizing record with
  | nil => exact htidy
  | cons edit rest ih => exact ih (edit.tidy_apply htidy)

/-- Links of a category to some identifiers have been written to a record, all with one payload.
Nothing else of the record has changed. -/
structure Linked (category : String) (payload : List Int) (written : String → Prop)
    (before after : Record) : Prop where
  rest : after = { before with links := after.links }
  linked : ∀ id, written id → after.payload? category id = some payload
  others : ∀ here id, ¬ (here = category ∧ written id) →
    after.payload? here id = before.payload? here id

theorem linked_edited (record : Record) (category : String) (payload : List Int)
    {ids : List String} {written : String → Prop} (hids : ∀ id, id ∈ ids ↔ written id) :
    Linked category payload written record (record.edited (linkEdits category payload ids)) where
  rest := by
    have hlinks := edited_links record (ids.map fun id => ⟨category, id, payload⟩)
    rw [List.map_map] at hlinks
    change record.edited (linkEdits category payload ids) = _ at hlinks
    rw [hlinks]
  linked id hid := by
    rw [payload?_edited_linkEdits, if_pos ⟨rfl, (hids id).mpr hid⟩]
  others here id hnot := by
    rw [payload?_edited_linkEdits, if_neg]
    rwa [hids id]

end Record

/-! ## All pairs -/

namespace Procedure

variable {paired : List (RecordRef × RecordRef)} {pool : Pool}

theorem mem_addedIds {id : String} :
    id ∈ addedIds pool category forced paired target ↔
      (∃ source, (target, source) ∈ paired ∧ (pool.get source).id = id) ∧
        (forced = true ∨ (pool.get target).payload? category id = none) := by
  simp only [addedIds, List.mem_filter, List.mem_map, Bool.or_eq_true, Option.isNone_iff_eq_none,
    decide_eq_true_eq]
  constructor
  · rintro ⟨⟨⟨_, source⟩, ⟨hmem, rfl⟩, rfl⟩, hadds⟩
    exact ⟨⟨source, hmem, rfl⟩, hadds⟩
  · rintro ⟨⟨source, hmem, rfl⟩, hadds⟩
    exact ⟨⟨(target, source), ⟨hmem, rfl⟩, rfl⟩, hadds⟩

theorem addedIds_cons (pair : RecordRef × RecordRef) (rest : List (RecordRef × RecordRef))
    (ref : RecordRef) :
    addedIds pool category forced (pair :: rest) ref =
      addedIds pool category forced [pair] ref ++ addedIds pool category forced rest ref := by
  by_cases hsame : pair.1 = ref <;> simp [addedIds, hsame, List.filter_cons]
  split <;> rfl

/-- Adding a link for one pair does not decide about pairs with another target or identifier. -/
theorem addedIds_of_apart {later : Pool} {pair : RecordRef × RecordRef} {ref : RecordRef}
    (hnew : (pair.1, (pool.get pair.2).id) ∉
      paired.map fun pair => (pair.1, (pool.get pair.2).id))
    (hids : ∀ other ∈ paired, (later.get other.2).id = (pool.get other.2).id)
    {payload : List Int} (hget : later.get ref = (pool.get ref).edited
      (Record.linkEdits category payload (addedIds pool category forced [pair] ref))) :
    addedIds later category forced paired ref = addedIds pool category forced paired ref := by
  have hsame : (paired.filter fun pair => pair.1 = ref).map (fun pair => (later.get pair.2).id) =
      (paired.filter fun pair => pair.1 = ref).map fun pair => (pool.get pair.2).id :=
    List.map_congr_left fun other hother => hids other (List.mem_of_mem_filter hother)
  rw [addedIds, hsame, addedIds]
  refine List.filter_congr fun id hid => ?_
  obtain ⟨other, hother, rfl⟩ := List.mem_map.mp hid
  obtain ⟨hmem, htarget⟩ := List.mem_filter.mp hother
  rw [hget, Record.payload?_edited_linkEdits, if_neg]
  rintro ⟨-, hadded⟩
  obtain ⟨⟨source, hpair, hsource⟩, -⟩ := mem_addedIds.mp hadded
  obtain rfl := List.mem_singleton.mp hpair
  refine hnew (List.mem_map.mpr ⟨other, hmem, ?_⟩)
  rw [of_decide_eq_true htarget, hsource]

/-- Links are added for pairs one after the other.  None of them decides about a later one. -/
theorem amended_addLinks {before after : World} (htargets : before.HasTargets refs)
    (htidy : ∀ ref ∈ refs, (before.pool.get ref).Tidy)
    (hpaired : ∀ pair ∈ paired, pair.1 ∈ refs ∧ before.pool.Holds pair.2)
    (hdistinct : (paired.map fun pair => (pair.1, (before.pool.get pair.2).id)).Nodup)
    (hyields : (paired.forM fun pair =>
      Eval.onActive (Work.addLink pair.1 pair.2 category payload forced)).Yields before () after) :
    World.Amended refs (fun ref => Record.linkEdits category
      (payload.getD Record.defaultPayload) (addedIds before.pool category forced paired ref))
        before after := by
  induction paired generalizing before with
  | nil =>
    obtain ⟨-, rfl⟩ := Eval.yields_pure.mp hyields
    exact htargets.amended_of_same rfl rfl
  | cons pair rest ih =>
    obtain ⟨hpair, hrest⟩ := List.forall_mem_cons.mp hpaired
    obtain ⟨hnew, hnodup⟩ := List.nodup_cons.mp hdistinct
    obtain ⟨_, between, hfirst, hlater⟩ := Eval.yields_bind.mp hyields
    have hstep := htargets.amended_addLink hpair.1 (htidy _ hpair.1) hfirst
    have hstill := htargets.amended hstep
    obtain ⟨mod, patched, hmod, hpatched, hamended⟩ := hstep
    have hids : ∀ other ∈ rest, (between.pool.get other.2).id = (before.pool.get other.2).id :=
      fun other hother => hamended.id_of_holds (hrest other hother).2
    have hlast := ih hstill
      (fun ref href => hamended.target ref href ▸ Record.tidy_edited (htidy ref href) _)
      (fun other hother => ⟨(hrest other hother).1, hamended.holds _ (hrest other hother).2⟩)
      (by rwa [List.map_congr_left fun other hother => by rw [hids other hother]]) hlater
    refine (World.Amended.trans ⟨mod, patched, hmod, hpatched, hamended⟩ hlast).congr
      fun ref href => ?_
    have hrestIds := addedIds_of_apart hnew hids (hamended.target ref href)
    rw [hrestIds, addedIds_cons pair rest ref, Record.linkEdits_append]

/-- Links that are there are not added again. -/
theorem exists_yields_addLinks_again {before : World} {mod : Mod} (hmod : before.active = some mod)
    (htidy : ∀ pair ∈ paired, (before.pool.get pair.1).Tidy)
    (hlinked : ∀ pair ∈ paired,
      (before.pool.get pair.1).payload? category (before.pool.get pair.2).id ≠ none) :
    ∃ after, (paired.forM fun pair =>
        Eval.onActive (Work.addLink pair.1 pair.2 category payload false)).Yields before () after ∧
      after.pool = before.pool ∧ after.active = before.active := by
  induction paired generalizing before with
  | nil => exact ⟨before, Eval.yields_pure.mpr ⟨rfl, rfl⟩, rfl, rfl⟩
  | cons pair rest ih =>
    obtain ⟨hhead, hrest⟩ := List.forall_mem_cons.mp hlinked
    obtain ⟨htidyHead, htidyRest⟩ := List.forall_mem_cons.mp htidy
    let target := before.pool.get pair.1
    let linked := before.pool.get pair.2
    let text := target.label ++ " already links " ++ linked.label ++ " in " ++ category ++
      ", skipped"
    let between : World :=
      { before with journal := before.journal.push ⟨.debug, .records, text⟩, active := some mod }
    have hskipped : (!false && target.hasLink linked.id (some category) none) = true := by
      rw [Record.hasLink_eq_isSome htidyHead, Bool.not_false, Bool.true_and,
        Option.isSome_iff_ne_none]
      exact hhead
    have hfirst : (Eval.onActive (Work.addLink pair.1 pair.2 category payload false)).Yields before
        () between := by
      refine Eval.yields_onActive.mpr ⟨mod, ⟨before.pool, mod, between.journal, before.marks⟩,
        hmod, ?_, rfl⟩
      refine Work.yields_bind.mpr ⟨target, _, Work.yields_record.mpr ⟨rfl, rfl⟩, ?_⟩
      refine Work.yields_bind.mpr ⟨linked, _, Work.yields_record.mpr ⟨rfl, rfl⟩, ?_⟩
      rw [if_pos hskipped]
      exact Work.yields_note.mpr rfl
    have hbetween : between.active = some mod := rfl
    obtain ⟨after, hafter, hpool, hactive⟩ := ih hbetween htidyRest hrest
    exact ⟨after, Eval.yields_bind.mpr ⟨(), between, hfirst, hafter⟩, hpool,
      hactive.trans hmod.symm⟩

/-- A link is written for a target and an identifier: the target goes together with a source that
has it, and it had no such link or the procedure is forced. -/
def Adds (targets sources : Group) (pairwise forced : Bool) (category : String) (pool : Pool)
    (target : RecordRef) (id : String) : Prop :=
  (∃ source, Paired targets sources pairwise target source ∧ (pool.get source).id = id) ∧
    (forced = true ∨ (pool.get target).payload? category id = none)

end Procedure

/-- Links have been added for the pairs of two groups: to the targets, and to the versions that the
mod has of them.  A version is made only if there is a link to write to it. -/
structure LinksAdded (targets sources : Group) (pairwise forced : Bool) (category : String)
    (payload : List Int) (pool : Pool) (mod : Mod) (later : Pool) (patched : Mod) : Prop where
  pair : ∀ target source, Procedure.Paired targets sources pairwise target source →
    (later.get target).payload? category (pool.get source).id =
      some (if forced then payload
        else ((pool.get target).payload? category (pool.get source).id).getD payload)
  view : ∀ target ∈ targets.records,
    Record.Linked category payload
      (Procedure.Adds targets sources pairwise forced category pool target)
      (pool.get target) (later.get target)
  kept : ∀ target ∈ targets.records,
    (∀ id, ¬ Procedure.Adds targets sources pairwise forced category pool target id) →
      patched.version? later (pool.get target).id = mod.version? pool (pool.get target).id
  version : ∀ target ∈ targets.records, ∀ id,
    Procedure.Adds targets sources pairwise forced category pool target id →
      ∃ own, patched.version? later (pool.get target).id = some own ∧
        Record.Linked category payload
          (Procedure.Adds targets sources pairwise forced category pool target)
          ((mod.version? pool (pool.get target).id).getD
            (Merge.overrideOf (pool.get target) mod.name)) own
  otherVersions : ∀ id, (∀ target ∈ targets.records, (pool.get target).id ≠ id) →
    patched.version? later id = mod.version? pool id
  others : ∀ ref, pool.Holds ref → ref ∉ targets.records →
    (∀ target ∈ targets.records, mod.find? pool (pool.get target).id ≠ some ref) →
      later.get ref = pool.get ref

namespace LinksAdded

variable {targets sources : Group} {pairwise : Bool} {paired : List (RecordRef × RecordRef)}
  {pool later : Pool} {mod patched : Mod} {links : List Int}

theorem of_amended (hpaired : Procedure.pairs targets sources pairwise = .ok paired)
    (hamended : Amended targets.records (fun ref => Record.linkEdits category links
      (Procedure.addedIds pool category forced paired ref)) pool mod later patched) :
    LinksAdded targets sources pairwise forced category links pool mod later patched := by
  have hids : ∀ target id, id ∈ Procedure.addedIds pool category forced paired target ↔
      Procedure.Adds targets sources pairwise forced category pool target id := by
    intro target id
    simp only [Procedure.mem_addedIds, Procedure.mem_pairs_iff hpaired, Procedure.Adds]
  exact {
    pair := by
      intro target source hpair
      have hmem := (Procedure.mem_pairs hpaired ((Procedure.mem_pairs_iff hpaired).mpr hpair)).1
      rw [hamended.target target hmem, Record.payload?_edited_linkEdits]
      by_cases hadds : Procedure.Adds targets sources pairwise forced category pool target
          (pool.get source).id
      · rw [if_pos ⟨rfl, (hids target _).mpr hadds⟩]
        rcases hadds.2 with hforced | hnone
        · rw [hforced, if_pos rfl]
        · rw [hnone, Option.getD_none, ite_self]
      · rw [if_neg fun hboth => hadds ((hids target _).mp hboth.2)]
        obtain ⟨hunforced, hsome⟩ := not_or.mp fun hor => hadds ⟨⟨source, hpair, rfl⟩, hor⟩
        obtain ⟨given, hgiven⟩ := Option.ne_none_iff_exists'.mp hsome
        rw [if_neg hunforced, hgiven, Option.getD_some]
    view := by
      intro target hmem
      rw [hamended.target target hmem]
      exact Record.linked_edited _ _ _ (hids target)
    kept := by
      intro target hmem hnone
      have hempty : Procedure.addedIds pool category forced paired target = [] :=
        List.eq_nil_iff_forall_not_mem.mpr fun id hid => hnone id ((hids target id).mp hid)
      rw [hamended.version target hmem, hempty]
      rfl
    version := by
      intro target hmem id hadds
      have hsome : Record.linkEdits category links
          (Procedure.addedIds pool category forced paired target) ≠ [] :=
        List.map_eq_nil_iff.not.mpr (List.ne_nil_of_mem ((hids target id).mpr hadds))
      refine ⟨_, (hamended.version target hmem).trans (Mod.editedVersion_of_ne_nil hsome), ?_⟩
      exact Record.linked_edited _ _ _ (hids target)
    otherVersions := hamended.others
    others := hamended.rest }

end LinksAdded

/-- Links are added for exactly the pairs that are asked for.  Groups that are to go together by
position but differ in size are refused before anything is written, and adding the same links once
more without force changes no record. -/
theorem addExtraData_links_pairs {setting : Setting} {record : Option RecordRef} {before : World}
    {mod : Mod} {targets sources : Group} (hmod : before.active = some mod)
    (hown : ∀ own ∈ mod.records, before.pool.Holds own) (htargets : targets.Apart before.pool)
    (hsources : sources.Apart before.pool)
    (htidy : ∀ ref ∈ targets.records, (before.pool.get ref).Tidy) {nodes : List Node}
    {category : String} {payload : Option (List Int)}
    (harguments : LinkArguments nodes category payload) (pairwise forced : Bool) :
    let call := (Node.pipe (.group targets) (Procedure.linking forced) (.group sources :: nodes)
      pairwise).evaluate setting record
    (pairwise = true → targets.size ≠ sources.size →
      call.run before =
        (.error (.evaluation (.unevenPairs targets.size sources.size)), before)) ∧
    ∀ value after, call.Yields before value after →
      ∃ patched, after.active = some patched ∧
        LinksAdded targets sources pairwise forced category
          (payload.getD Record.defaultPayload) before.pool mod after.pool patched ∧
        (forced = false →
          ∃ last final, call.Yields after value last ∧ last.pool = after.pool ∧
            last.active = some final ∧ final.records = patched.records ∧
            final.deleted = patched.deleted) := by
  intro call
  have htwo := Procedure.hasSource_linking forced
  refine ⟨fun hpairwise huneven => ?_, fun value after hyields => ?_⟩
  · subst hpairwise
    exact Node.run_pipe_of_uneven htwo hmod huneven
  obtain ⟨rfl, other, paired, worked, hother, hpaired, hworked, hend⟩ :=
    (Node.yields_pipe_of_two htwo).mp hyields
  obtain rfl := Option.some.inj (hmod.symm.trans hother)
  simp only [Procedure.onPair_linking _ _ _ _ harguments] at hworked
  have hmembers : ∀ pair ∈ paired, pair.1 ∈ targets.records ∧ pair.2 ∈ sources.records :=
    fun pair hpair => Procedure.mem_pairs hpaired hpair
  have hgroup : before.HasTargets targets.records := ⟨mod, hmod, htargets.targets hown⟩
  have hlinked := Procedure.amended_addLinks hgroup htidy
    (fun pair hpair => ⟨(hmembers pair hpair).1, hsources.held _ (hmembers pair hpair).2⟩)
    (Procedure.nodup_pairs hpaired htargets hsources) hworked
  have hamended := (hlinked.trans (Procedure.amended_conclude hend (hgroup.amended hlinked))).congr
    fun ref _ => List.append_nil _
  obtain ⟨other, patched, hother, hpatched, hamended⟩ := hamended
  obtain rfl := Option.some.inj (hmod.symm.trans hother)
  have hadded := LinksAdded.of_amended hpaired hamended
  refine ⟨patched, hpatched, hadded, fun hunforced => ?_⟩
  subst hunforced
  have hagain : ∀ pair ∈ paired,
      (after.pool.get pair.1).payload? category (after.pool.get pair.2).id ≠ none := by
    intro pair hpair
    rw [hamended.id_of_holds (hsources.held _ (hmembers pair hpair).2),
      hadded.pair _ _ ((Procedure.mem_pairs_iff hpaired).mp hpair)]
    exact Option.some_ne_none _
  obtain ⟨written, hwritten, hpool, hactive⟩ := Procedure.exists_yields_addLinks_again hpatched
    (fun pair hpair => hamended.target _ (hmembers pair hpair).1 ▸
      Record.tidy_edited (htidy _ (hmembers pair hpair).1) _) hagain
  rw [hpatched] at hactive
  obtain ⟨last, hlast, -⟩ := Procedure.exists_yields_conclude hactive
  obtain ⟨hlastPool, final, hfinal, -, hrecords, hdeleted⟩ :=
    Procedure.records_of_conclude hlast hactive
  refine ⟨last, final, (Node.yields_pipe_of_two htwo).mpr ?_, hlastPool.trans hpool, hfinal,
    hrecords, hdeleted⟩
  refine ⟨rfl, patched, paired, written, hpatched, hpaired, ?_, hlast⟩
  simp only [Procedure.onPair_linking _ _ _ _ harguments]
  exact hwritten

/-- A world with a sword of iron, a spear and two materials, in which a mod is being patched. -/
def workshop : World where
  pool := ⟨#[{ id := "1-base", kind := "WEAPON", mod := "base", isNew := true
               links := [("MATERIAL", [("10-base", [1, 0, 0])])] },
    { id := "2-base", kind := "WEAPON", mod := "base", isNew := true },
    { id := "10-base", kind := "ITEM", mod := "base", isNew := true },
    { id := "11-base", kind := "ITEM", mod := "base", isNew := true }]⟩
  active := some { name := "forge" }

/-- The sword and the spear. -/
def workshopWeapons : Group := ⟨[⟨"base", ⟨0⟩⟩, ⟨"base", ⟨1⟩⟩]⟩

/-- Iron and wood. -/
def workshopMaterials : Group := ⟨[⟨"base", ⟨2⟩⟩, ⟨"base", ⟨3⟩⟩]⟩

/-- The line that makes weapons of materials. -/
def workshopLine : Node :=
  .pipe (.group workshopWeapons) (Procedure.linking false)
    [.group workshopMaterials, .literal (.string "MATERIAL"), .array [.literal (.integer 7)]] false

theorem workshop_links_pairs :
    ∃ value after patched, (workshopLine.evaluate {} none).Yields workshop value after ∧
      after.active = some patched ∧
      (after.pool.get ⟨0⟩).payload? "MATERIAL" "10-base" = some [1, 0, 0] ∧
      (after.pool.get ⟨0⟩).payload? "MATERIAL" "11-base" = some [7] ∧
      (after.pool.get ⟨1⟩).payload? "MATERIAL" "10-base" = some [7] := by
  have hheld : ∀ ref : RecordRef, ref.index < 4 → workshop.pool.Holds ref := fun _ hless => hless
  have hweapons : workshopWeapons.Apart workshop.pool := by
    refine ⟨fun ref hmem => hheld ref ?_, by decide⟩
    revert ref
    decide
  have hmaterials : workshopMaterials.Apart workshop.pool := by
    refine ⟨fun ref hmem => hheld ref ?_, by decide⟩
    revert ref
    decide
  have htidy : ∀ ref ∈ workshopWeapons.records, (workshop.pool.get ref).Tidy := by decide
  have harguments : LinkArguments [.literal (.string "MATERIAL"), .array [.literal (.integer 7)]]
      "MATERIAL" (some [7]) :=
    .payload (.literal _) (.array (.cons (.literal _) .nil))
  have hmod : workshop.active = some { name := "forge" } := rfl
  have hok : ((workshopLine.evaluate {} none).run workshop).1.isOk = true := by decide +kernel
  obtain ⟨value, after, hyields⟩ := Eval.exists_yields_of_isOk hok
  obtain ⟨patched, hpatched, hadded, -⟩ :=
    (addExtraData_links_pairs hmod (List.forall_mem_nil _) hweapons hmaterials htidy harguments
      false false).2 value after hyields
  refine ⟨value, after, patched, hyields, hpatched, ?_, ?_, ?_⟩
  · exact hadded.pair ⟨0⟩ ⟨2⟩ (by simp [Procedure.Paired]; decide)
  · exact hadded.pair ⟨0⟩ ⟨3⟩ (by simp [Procedure.Paired]; decide)
  · exact hadded.pair ⟨1⟩ ⟨2⟩ (by simp [Procedure.Paired]; decide)

end Patchwork
