import Patchwork.Proofs.Mod.StoreInvariant

/-!
# Runs of store calls

A run is any number of calls to the store of the mod being patched, one after the
other, with anything in between that leaves the mod and the records alone.  A call
that fails is part of the run as well.  The main statement says that the mod is in
good order at every point of a run that starts with a mod as it is made from its
records, and that nothing deleted by then is ever found, changed or made again.
-/

namespace Patchwork

/-- The mod being patched and all records are the same, though there may be more
records. -/
structure World.Beside (before after : World) : Prop where
  active : after.active = before.active
  kept : before.pool.KeptIn after.pool

/-- A run of store calls leads from one world to another.  What a transformer or a
validator of links does is part of the run. -/
inductive StoreRun : World → World → Prop
  | beside {before after : World} (hbeside : before.Beside after) : StoreRun before after
  | andThen {before between after : World} (hfirst : StoreRun before between)
      (hsecond : StoreRun between after) : StoreRun before after
  | setField (ref : RecordRef) (name text : String) (world : World) :
      StoreRun world ((Eval.onActive (Work.setField ref name text)).run world).2
  | forceSetField (ref : RecordRef) (name text declared : String) (world : World) :
      StoreRun world ((Eval.onActive (Work.forceSetField ref name text declared)).run world).2
  | addLink (ref source : RecordRef) (category : String) (payload : Option (List Int))
      (forced : Bool) (world : World) :
      StoreRun world
        ((Eval.onActive (Work.addLink ref source category payload forced)).run world).2
  | editLinks (ref : RecordRef) (category : String) (transformers : List (Int → Eval Int))
      (accepts : List Int → Eval Bool)
      (htransformers : ∀ transformer ∈ transformers, ∀ number world,
        StoreRun world ((transformer number).run world).2)
      (haccepts : ∀ payload world, StoreRun world ((accepts payload).run world).2)
      (world : World) :
      StoreRun world
        ((Procedure.editCategory ref category transformers accepts).run world).2
  | deleteRecord (ref : RecordRef) (world : World) :
      StoreRun world ((Eval.onActive (Work.deleteRecord ref)).run world).2
  | cloneRecord (ref : RecordRef) (count : Int) (world : World) :
      StoreRun world ((Eval.onActive (Work.cloneRecord ref count)).run world).2
  | addDependencies (entries : List Plain) (world : World) :
      StoreRun world ((Eval.onActive (Work.addDependencies entries)).run world).2
  | addReferences (entries : List Plain) (world : World) :
      StoreRun world ((Eval.onActive (Work.addReferences entries)).run world).2

/-! ## What a run keeps -/

/-- A relation that doing nothing is in and that holds of the calls holds of every run of
them. -/
theorem StoreRun.relates {Rel : StoreRelation} (hRel : Rel.IsPreorder)
    (hkept : ∀ pool later mod, pool.KeptIn later → Rel pool mod later mod)
    (hwrites : ∀ ref, Work.WritesRelate Rel ref)
    (hdelete : ∀ ref, (Work.deleteRecord ref).Relates Rel)
    (hclone : ∀ ref count, (Work.cloneRecord ref count).Relates Rel)
    (hdependencies : ∀ entries, (Work.addDependencies entries).Relates Rel)
    (hreferences : ∀ entries, (Work.addReferences entries).Relates Rel)
    {before after : World} (hrun : StoreRun before after) : before.Relates Rel after := by
  induction hrun with
  | beside hbeside =>
    intro mod hmod
    exact ⟨mod, hbeside.active.trans hmod, hkept _ _ mod hbeside.kept⟩
  | andThen _ _ ihfirst ihsecond => exact World.Relates.trans hRel ihfirst ihsecond
  | setField ref name text world =>
    exact Eval.relates_onActive hRel (Work.relates_setField hRel (hwrites ref) name text) world
  | forceSetField ref name text declared world =>
    exact Eval.relates_onActive hRel
      (Work.relates_forceSetField hRel (hwrites ref) name text declared) world
  | addLink ref source category payload forced world =>
    exact Eval.relates_onActive hRel
      (Work.relates_addLink hRel (hwrites ref) source category payload forced) world
  | editLinks ref category transformers accepts _ _ world ihtransformers ihaccepts =>
    exact Procedure.relates_editCategory hRel (hwrites ref) ihtransformers ihaccepts world
  | deleteRecord ref world => exact Eval.relates_onActive hRel (hdelete ref) world
  | cloneRecord ref count world => exact Eval.relates_onActive hRel (hclone ref count) world
  | addDependencies entries world =>
    exact Eval.relates_onActive hRel (hdependencies entries) world
  | addReferences entries world => exact Eval.relates_onActive hRel (hreferences entries) world

/-- The mod being patched has made a step of its store. -/
def World.Steps (before after : World) : Prop :=
  ∀ mod, before.active = some mod →
    ∃ patched, after.active = some patched ∧ StoreStep before.pool mod after.pool patched

theorem StoreRun.steps {before after : World} (hrun : StoreRun before after) :
    before.Steps after :=
  hrun.relates StoreStep.isPreorder (fun _ _ _ hkept => StoreStep.of_keptIn hkept)
    Work.writes_step Work.steps_deleteRecord Work.steps_cloneRecord Work.steps_addDependencies
    Work.steps_addReferences

/-! ## From the start -/

/-- A mod made from records with distinct identifiers is in good order. -/
theorem soundStore_create (pool : Pool) (name : String) {records : List Record}
    (dependencies references : List Plain) (hdistinct : (records.map Record.id).Nodup) :
    SoundStore (Mod.create pool name records dependencies references).1
      (Mod.create pool name records dependencies references).2 := by
  let named := records.map fun record => { record with mod := name }
  have hget : (pool.addAll named).2.map (pool.addAll named).1.get = named :=
    pool.get_addAll named
  have hread : ∀ own ∈ (pool.addAll named).2, (pool.addAll named).1.get own ∈ named := by
    intro own hown
    have hmem := List.mem_map_of_mem (f := (pool.addAll named).1.get) hown
    rwa [hget] at hmem
  exact {
    held := fun own hown => (Pool.mem_addAll hown).2
    distinct := by
      have hids := congrArg (List.map Record.id) hget
      simp only [named, List.map_map] at hids
      change ((pool.addAll named).2.map _).Nodup
      exact hids ▸ hdistinct
    absent := fun _ _ hid => nomatch hid
    named := by
      intro own hown
      obtain ⟨record, -, hrecord⟩ := List.mem_map.mp (hread own hown)
      exact congrArg Record.mod hrecord.symm
    dependencies := (ProperHeader.nil _).foldl dependencies
    references := (ProperHeader.nil _).foldl references }

/-- A mod made from records with distinct identifiers is in good order at every point
of a run, and what it has deleted by then stays deleted: no such identifier is found
again, and no record that carries one is changed. -/
theorem storeRun_keeps_order {pool : Pool} {name : String} {records : List Record}
    {dependencies references : List Plain} (hdistinct : (records.map Record.id).Nodup)
    {start later last : World}
    (hpool : start.pool = (Mod.create pool name records dependencies references).1)
    (hactive : start.active = some (Mod.create pool name records dependencies references).2)
    (hlater : StoreRun start later) (hlast : StoreRun later last) :
    ∃ mod final, later.active = some mod ∧ last.active = some final ∧
      mod.name = name ∧ SoundStore later.pool mod ∧
      ∀ id ∈ mod.deleted, id ∈ final.deleted ∧ final.find? last.pool id = none ∧
        ∀ ref, later.pool.Holds ref → (later.pool.get ref).id = id →
          last.pool.get ref = later.pool.get ref := by
  obtain ⟨mod, hmod, hstep⟩ := hlater.steps _ hactive
  obtain ⟨final, hfinal, hrest⟩ := hlast.steps mod hmod
  have hsound : SoundStore later.pool mod := by
    refine hstep.sound ?_
    rw [hpool]
    exact soundStore_create pool name dependencies references hdistinct
  refine ⟨mod, final, hmod, hfinal, hstep.name, hsound, fun id hid => ?_⟩
  refine ⟨hrest.deleted hid, Mod.find?_eq_none.mpr fun own hown hsame => ?_, ?_⟩
  · exact (hrest.sound hsound).absent own hown (hsame ▸ hrest.deleted hid)
  · rintro ref hheld rfl
    exact hrest.unchanged ref hheld hid

/-- Two axes that a mod introduces. -/
def axeRecords : List Record :=
  [{ id := "1-axes", kind := "WEAPON", isNew := true },
    { id := "2-axes", kind := "WEAPON", isNew := true }]

/-- The mod with the axes. -/
def axes : Pool × Mod :=
  Mod.create {} "axes" axeRecords [.str "base", .str "axes"] []

/-- The world in which the axes are patched. -/
def axesWorld : World := { pool := axes.1, active := some axes.2 }

/-- The world after the first axe has been deleted. -/
def axesDeleted : World := ((Eval.onActive (Work.deleteRecord ⟨0⟩)).run axesWorld).2

/-- The world after the deleted axe has been cloned and changed; the change fails. -/
def axesCloned : World :=
  ((Eval.onActive (Work.forceSetField ⟨0⟩ "edge" "1" "int")).run
    ((Eval.onActive (Work.cloneRecord ⟨0⟩ 2)).run axesDeleted).2).2

theorem axes_keep_order :
    ∃ mod final, axesDeleted.active = some mod ∧ axesCloned.active = some final ∧
      mod.deleted = ["1-axes"] ∧ final.find? axesCloned.pool "1-axes" = none ∧
      axesCloned.pool.get ⟨0⟩ = axesDeleted.pool.get ⟨0⟩ := by
  have hdistinct : (axeRecords.map Record.id).Nodup := by decide
  have hpool : axesWorld.pool = axes.1 := rfl
  have hactive : axesWorld.active = some axes.2 := rfl
  have hcloned : StoreRun axesDeleted axesCloned :=
    (StoreRun.cloneRecord ⟨0⟩ 2 axesDeleted).andThen (StoreRun.forceSetField ⟨0⟩ "edge" "1" "int" _)
  obtain ⟨mod, final, hmod, hfinal, -, -, hgone⟩ :=
    storeRun_keeps_order hdistinct hpool hactive (StoreRun.deleteRecord ⟨0⟩ axesWorld) hcloned
  have hlast : axesDeleted.active.map Mod.deleted = some ["1-axes"] := by decide +kernel
  have hdeleted : mod.deleted = ["1-axes"] := by
    rw [show axesDeleted.active = some mod from hmod] at hlast
    exact Option.some.inj hlast
  obtain ⟨-, hfind, hkept⟩ := hgone "1-axes" (by rw [hdeleted]; exact List.mem_singleton_self _)
  have hheld : axesDeleted.pool.Holds ⟨0⟩ := by
    change 0 < axesDeleted.pool.records.size
    decide +kernel
  exact ⟨mod, final, hmod, hfinal, hdeleted, hfind, hkept ⟨0⟩ hheld (by decide +kernel)⟩

end Patchwork
