import Patchwork.Proofs.Mod.Files
import Patchwork.Proofs.Mod.Relations
import Patchwork.Proofs.Record.Content
import Patchwork.Proofs.Record.Pool

/-!
# Mods that are saved and loaded again

Whatever is done to a mod through its store, no record gets a field or a link twice and the
header stays proper.  So a mod that was saved is loaded as it was, with its records in
their order; only what was deleted from it is forgotten.
-/

namespace Patchwork

/-! ## Pools of tidy records -/

/-- No record of the pool has a field, a category or a target twice. -/
def Pool.Tidy (pool : Pool) : Prop :=
  ∀ ref, (pool.get ref).Tidy

namespace Pool.Tidy

variable {pool : Pool}

theorem add (htidy : pool.Tidy) {record : Record} (hrecord : record.Tidy) :
    (pool.add record).Tidy :=
  Pool.All.add htidy hrecord

theorem addAll (htidy : pool.Tidy) {records : List Record}
    (hrecords : ∀ record ∈ records, record.Tidy) : (pool.addAll records).1.Tidy :=
  Pool.All.addAll htidy hrecords

theorem modify (htidy : pool.Tidy) (ref : RecordRef) {edit : Record → Record}
    (hedit : ∀ record, record.Tidy → (edit record).Tidy) : (pool.modify ref edit).Tidy :=
  Pool.All.modify htidy ref hedit

end Pool.Tidy

theorem Record.Tidy.of_same {record other : Record} (htidy : record.Tidy)
    (hfields : other.fields = record.fields) (hlinks : other.links = record.links) :
    other.Tidy where
  fields := hfields ▸ htidy.fields
  links := hlinks ▸ htidy.links
  targets := hlinks ▸ htidy.targets

theorem Record.Tidy.cloneOf {record : Record} (htidy : record.Tidy) (number : Nat)
    (name : String) : (Work.cloneOf record number name).Tidy where
  fields := htidy.fields.sublist (Entries.remove_sublist _ _)
  links := htidy.links
  targets := htidy.targets

/-! ## What calls to the store keep -/

/-- A mod that can be saved and is then loaded as it is. -/
structure SavableMod (name : String) (pool : Pool) (mod : Mod) : Prop where
  named : mod.name = name
  tidy : pool.Tidy
  dependencies : ProperHeader (.str name) mod.dependencies
  references : ProperHeader (.str name) mod.references

/-- A mod that can be saved still can be. -/
def KeepsSavable : StoreRelation :=
  fun pool mod later patched => ∀ name, SavableMod name pool mod → SavableMod name later patched

theorem KeepsSavable.isPreorder : KeepsSavable.IsPreorder where
  refl _ _ _ hsavable := hsavable
  trans hfirst hsecond name hsavable := hsecond name (hfirst name hsavable)

/-- A mod with other records is still savable if they are tidy. -/
theorem SavableMod.of_tidy {name : String} {pool later : Pool} {mod patched : Mod}
    (hsavable : SavableMod name pool mod) (htidy : later.Tidy) (hname : patched.name = mod.name)
    (hdependencies : patched.dependencies = mod.dependencies)
    (hreferences : patched.references = mod.references) : SavableMod name later patched where
  named := hname.trans hsavable.named
  tidy := htidy
  dependencies := hdependencies ▸ hsavable.dependencies
  references := hreferences ▸ hsavable.references

namespace Work

/-- Puts a record of the pool at the end of the mod. -/
def adopt (ref : RecordRef) : Work Unit :=
  modify fun bench => { bench with
    pool := bench.pool.modify ref fun record => { record with mod := bench.mod.name }
    mod := bench.mod.addRecord ref }

/-- Appending a new record is adopting it when it has been added to the pool. -/
theorem yields_append_iff_adopt {record : Record} {before after : Workbench} :
    (append record).Yields before before.pool.nextRef after ↔
      (adopt before.pool.nextRef).Yields { before with pool := before.pool.add record } ()
        after := by
  have hpool : (before.pool.add record).modify before.pool.nextRef
        (fun record => { record with mod := before.mod.name }) =
      before.pool.add { record with mod := before.mod.name } := by
    simp only [Pool.add, Pool.modify, Pool.nextRef]
    refine congrArg Pool.mk (Array.ext (by simp) fun index hleft hright => ?_)
    rw [Array.size_push] at hright
    by_cases hlast : index = before.pool.records.size
    · subst hlast
      simp [Array.getElem_modify]
    · have hinside : index < before.pool.records.size := by omega
      simp [Array.getElem_push, Array.getElem_modify, hinside, Ne.symm hlast]
  rw [yields_append, adopt, yields_modify, hpool]
  simp

theorem keepsSavable_write {ref : RecordRef} {edit : Record → Record}
    (hedit : ∀ record, record.Tidy → (edit record).Tidy) :
    (write ref edit).Relates KeepsSavable := by
  intro before result after hyields name hsavable
  obtain ⟨own, between, hown, hmod, hpool⟩ := yields_write hyields
  have hbetween : SavableMod name between.pool between.mod := by
    obtain ⟨-, ⟨-, rfl⟩ | ⟨-, -, hadded, hmods⟩⟩ := yields_ownVersion hown
    · exact hsavable
    · rw [hadded, hmods]
      exact hsavable.of_tidy (hsavable.tidy.add (Record.tidy_of_empty rfl rfl)) rfl rfl rfl
  have hedited := hbetween.tidy.modify own hedit
  rw [hpool, hmod]
  split
  · exact hbetween.of_tidy hedited rfl rfl rfl
  · exact hbetween.of_tidy (hedited.modify ref hedit) rfl rfl rfl

theorem writes_keepSavable (ref : RecordRef) : WritesRelate KeepsSavable ref where
  field name value := keepsSavable_write fun _ htidy => htidy.setField name value
  link link := keepsSavable_write fun _ htidy => htidy.setLink link

theorem keepsSavable_deleteRecord (ref : RecordRef) :
    (deleteRecord ref).Relates KeepsSavable := by
  intro before result after hyields name hsavable
  obtain ⟨-, rfl⟩ | ⟨-, ⟨-, hwrite⟩ | ⟨own, -, -, hpool, hmod⟩⟩ :=
    yields_deleteRecord hyields
  · exact hsavable
  · exact (writes_keepSavable ref).field _ _ _ _ _ hwrite name hsavable
  · rw [hpool, hmod]
    exact hsavable.of_tidy
      (hsavable.tidy.modify ref fun _ htidy => htidy.setField _ _) rfl rfl rfl

theorem keepsSavable_appendClones {source : Record} (hsource : source.Tidy) {mod : String}
    (count number : Nat) : (appendClones source mod count number).Relates KeepsSavable := by
  induction count generalizing number with
  | zero =>
    intro before result after hyields
    obtain ⟨-, rfl⟩ := yields_pure.mp hyields
    exact KeepsSavable.isPreorder.refl _ _
  | succ count ih =>
    intro before result after hyields name hsavable
    rw [appendClones] at hyields
    obtain ⟨clone, between, happend, hrest⟩ := yields_bind.mp hyields
    obtain ⟨-, hbetween⟩ := yields_append.mp happend
    obtain ⟨others, last, hothers, hresult⟩ := yields_bind.mp hrest
    obtain ⟨-, rfl⟩ := yields_pure.mp hresult
    refine ih (number + 1) _ _ _ hothers name ?_
    rw [← hbetween]
    have hclone : Record.Tidy { cloneOf source number mod with mod := before.mod.name } :=
      (hsource.cloneOf number mod).of_same rfl rfl
    exact hsavable.of_tidy (hsavable.tidy.add hclone) rfl rfl rfl

theorem keepsSavable_cloneRecord (ref : RecordRef) (count : Int) :
    (cloneRecord ref count).Relates KeepsSavable := by
  intro before result after hyields name hsavable
  obtain ⟨text, between, hclones, rfl⟩ := yields_cloneRecord hyields
  exact keepsSavable_appendClones (hsavable.tidy ref) _ _ _ _ _ hclones name hsavable

theorem keepsSavable_adopt (ref : RecordRef) : (adopt ref).Relates KeepsSavable := by
  intro before result after hyields name hsavable
  obtain rfl := yields_modify.mp hyields
  refine hsavable.of_tidy (hsavable.tidy.modify ref fun record htidy => ?_) rfl rfl rfl
  exact htidy.of_same rfl rfl

theorem keepsSavable_addDependencies (entries : List Plain) :
    (addDependencies entries).Relates KeepsSavable := by
  intro before result after hyields name hsavable
  obtain rfl := yields_modify.mp hyields
  refine { hsavable with dependencies := ?_ }
  rw [Mod.addDependencies, hsavable.named]
  exact hsavable.dependencies.foldl entries

theorem keepsSavable_addReferences (entries : List Plain) :
    (addReferences entries).Relates KeepsSavable := by
  intro before result after hyields name hsavable
  obtain rfl := yields_modify.mp hyields
  refine { hsavable with references := ?_ }
  rw [Mod.addReferences, hsavable.named]
  exact hsavable.references.foldl entries

end Work

/-! ## Runs of calls -/

/-- Calls to the store of the mod being patched, one after the other, with anything in between
that leaves the mod alone and does not make records untidy.  A call may fail, and what the
transformers and the validator of an edit do is part of it. -/
inductive StoreUse : World → World → Prop
  | elsewhere {before after : World} (hactive : after.active = before.active)
    (htidy : before.pool.Tidy → after.pool.Tidy) : StoreUse before after
  | andThen {before between after : World} (hfirst : StoreUse before between)
    (hsecond : StoreUse between after) : StoreUse before after
  | addRecord (ref : RecordRef) (world : World) :
    StoreUse world ((Eval.onActive (Work.adopt ref)).run world).2
  | setField (ref : RecordRef) (name text : String) (world : World) :
    StoreUse world ((Eval.onActive (Work.setField ref name text)).run world).2
  | forceSetField (ref : RecordRef) (name text declared : String) (world : World) :
    StoreUse world ((Eval.onActive (Work.forceSetField ref name text declared)).run world).2
  | addLink (ref source : RecordRef) (category : String) (payload : Option (List Int))
    (forced : Bool) (world : World) :
    StoreUse world ((Eval.onActive (Work.addLink ref source category payload forced)).run world).2
  | editLinks (ref : RecordRef) (category : String) (transformers : List (Int → Eval Int))
    (accepts : List Int → Eval Bool)
    (htransformers : ∀ transformer ∈ transformers, ∀ number world,
      StoreUse world ((transformer number).run world).2)
    (haccepts : ∀ payload world, StoreUse world ((accepts payload).run world).2)
    (world : World) :
    StoreUse world ((Procedure.editCategory ref category transformers accepts).run world).2
  | deleteRecord (ref : RecordRef) (world : World) :
    StoreUse world ((Eval.onActive (Work.deleteRecord ref)).run world).2
  | cloneRecord (ref : RecordRef) (count : Int) (world : World) :
    StoreUse world ((Eval.onActive (Work.cloneRecord ref count)).run world).2
  | addDependencies (entries : List Plain) (world : World) :
    StoreUse world ((Eval.onActive (Work.addDependencies entries)).run world).2
  | addReferences (entries : List Plain) (world : World) :
    StoreUse world ((Eval.onActive (Work.addReferences entries)).run world).2

theorem StoreUse.keepsSavable {before after : World} (huse : StoreUse before after) :
    before.Relates KeepsSavable after := by
  have hRel := KeepsSavable.isPreorder
  have hwrites := Work.writes_keepSavable
  induction huse with
  | elsewhere hactive htidy =>
    intro mod hmod
    refine ⟨mod, hactive.trans hmod, fun name hsavable => ?_⟩
    exact hsavable.of_tidy (htidy hsavable.tidy) rfl rfl rfl
  | andThen _ _ ihfirst ihsecond => exact World.Relates.trans hRel ihfirst ihsecond
  | addRecord ref world => exact Eval.relates_onActive hRel (Work.keepsSavable_adopt ref) world
  | setField ref name text world =>
    exact Eval.relates_onActive hRel (Work.relates_setField hRel (hwrites ref) name text) world
  | forceSetField ref name text declared world =>
    exact Eval.relates_onActive hRel
      (Work.relates_forceSetField hRel (hwrites ref) name text declared) world
  | addLink ref source category payload forced world =>
    exact Eval.relates_onActive hRel
      (Work.relates_addLink hRel (hwrites ref) source category payload forced) world
  | editLinks ref category transformers accepts _ _ world ihtransformers ihaccepts =>
    exact Procedure.relates_editCategory hRel (hwrites ref) ihtransformers ihaccepts world
  | deleteRecord ref world =>
    exact Eval.relates_onActive hRel (Work.keepsSavable_deleteRecord ref) world
  | cloneRecord ref count world =>
    exact Eval.relates_onActive hRel (Work.keepsSavable_cloneRecord ref count) world
  | addDependencies entries world =>
    exact Eval.relates_onActive hRel (Work.keepsSavable_addDependencies entries) world
  | addReferences entries world =>
    exact Eval.relates_onActive hRel (Work.keepsSavable_addReferences entries) world

/-! ## Saving and loading -/

theorem savableMod_create {pool : Pool} (hpool : pool.Tidy) (name : String)
    {records : List Record} (hrecords : ∀ record ∈ records, record.Tidy)
    (dependencies references : List Plain) :
    SavableMod name (Mod.create pool name records dependencies references).1
      (Mod.create pool name records dependencies references).2 where
  named := rfl
  tidy := by
    refine hpool.addAll fun named hnamed => ?_
    obtain ⟨record, hrecord, rfl⟩ := List.mem_map.mp hnamed
    exact (hrecords record hrecord).of_same rfl rfl
  dependencies := (ProperHeader.nil _).foldl dependencies
  references := (ProperHeader.nil _).foldl references

theorem SavableMod.proper {name : String} {pool : Pool} {mod : Mod}
    (hsavable : SavableMod name pool mod) : (ModFile.ofMod pool mod).Proper := by
  refine ⟨?_, ?_, fun record hrecord => ?_⟩
  · rw [ModFile.ofMod, hsavable.named]
    exact hsavable.dependencies
  · rw [ModFile.ofMod, hsavable.named]
    exact hsavable.references
  · obtain ⟨own, -, rfl⟩ := List.mem_map.mp hrecord
    exact ⟨(hsavable.tidy own).links, (hsavable.tidy own).targets⟩

/-- A mod was loaded as it was saved: under its name, with its header and with its records
in their order, but with no memory of what was deleted from it. -/
structure LoadedAs (pool : Pool) (mod : Mod) (filled : Pool) (loaded : Mod) : Prop where
  name : loaded.name = mod.name
  dependencies : loaded.dependencies = mod.dependencies
  references : loaded.references = mod.references
  records : loaded.records.map filled.get =
    mod.records.map fun own => { pool.get own with mod := mod.name }
  deleted : loaded.deleted = []

theorem records_create (pool : Pool) (name : String) (records : List Record)
    (dependencies references : List Plain) :
    (Mod.create pool name records dependencies references).2.records.map
        (Mod.create pool name records dependencies references).1.get =
      records.map fun record => { record with mod := name } :=
  pool.get_addAll _

/-- A savable mod is what is made of its file, wherever its records are put. -/
theorem SavableMod.loadedAs {name : String} {pool : Pool} {mod : Mod}
    (hsavable : SavableMod name pool mod) (target : Pool) :
    LoadedAs pool mod ((ModFile.ofMod pool mod).released.toMod target).1
      ((ModFile.ofMod pool mod).released.toMod target).2 where
  name := rfl
  dependencies := hsavable.proper.dependencies.foldl_nil
  references := hsavable.proper.references.foldl_nil
  records := by
    refine (records_create target _ _ _ _).trans ?_
    rw [ModFile.released, ModFile.ofMod, List.map_map, List.map_map]
    rfl
  deleted := rfl

/-- The mod that is made of a file states the same as the file. -/
theorem document_ofMod_toMod {file : ModFile} (hproper : file.Proper) {name : String}
    (hname : file.name = .str name) (target : Pool) :
    (ModFile.ofMod (file.toMod target).1 (file.toMod target).2).document = file.document := by
  have htext : Plain.str file.name.text = file.name := by
    rw [hname]
    rfl
  have hdependencies : (file.toMod target).2.dependencies = file.dependencies := by
    have hfold := hproper.dependencies.foldl_nil
    rw [← htext] at hfold
    exact hfold
  have hreferences : (file.toMod target).2.references = file.references := by
    have hfold := hproper.references.foldl_nil
    rw [← htext] at hfold
    exact hfold
  have hrecords : (ModFile.ofMod (file.toMod target).1 (file.toMod target).2).records =
      file.records.map fun record => { record with mod := file.name.text } :=
    records_create target _ _ _ _
  have hentries : (ModFile.ofMod (file.toMod target).1 (file.toMod target).2).records.map
      ModFile.entry = file.records.map ModFile.entry := by
    rw [hrecords, List.map_map]
    rfl
  rw [ModFile.document, ModFile.document, hentries]
  rw [ModFile.ofMod, hdependencies, hreferences, ← htext]
  rfl

/-- A mod that was made from records and used through its store is loaded from its file as it
was saved, whether it is asked for by its name or by none.  And a file that was read is read
again as it is from what is saved of it. -/
theorem loads_as_saved {pool : Pool} (hpool : pool.Tidy) {name : String} (hname : name ≠ "")
    {records : List Record} (hrecords : ∀ record ∈ records, record.Tidy)
    {dependencies references : List Plain} {start later : World}
    (hstart : start.pool = (Mod.create pool name records dependencies references).1)
    (hactive : start.active = some (Mod.create pool name records dependencies references).2)
    (huse : StoreUse start later) :
    (∃ mod, later.active = some mod ∧ mod.name = name ∧
      ∀ path asked target, ModFile.AsksNoOther asked (.str name) →
        ∃ file, ModFile.ofDocument path asked (ModFile.ofMod later.pool mod).document = .ok file ∧
          LoadedAs later.pool mod (file.toMod target).1 (file.toMod target).2) ∧
    ∀ path asked document file, ModFile.ofDocument path asked document = .ok file →
      (∀ target again, target = path ∨ path.name ≠ "" → ModFile.AsksNoOther again file.name →
        ModFile.ofDocument target again file.document = .ok file) ∧
      ∀ target own, file.name = .str own →
        (ModFile.ofMod (file.toMod target).1 (file.toMod target).2).document = file.document := by
  refine ⟨?_, fun path asked document file hread => ⟨fun target again htarget hagain => ?_,
    fun target own hown => ?_⟩⟩
  · obtain ⟨mod, hmod, hkeeps⟩ := huse.keepsSavable _ hactive
    rw [hstart] at hkeeps
    have hsavable := hkeeps name (savableMod_create hpool name hrecords dependencies references)
    refine ⟨mod, hmod, hsavable.named, fun path asked target hasked => ?_⟩
    have hfilled : (Plain.str name).isFilled = true := by simpa [Plain.isFilled] using hname
    have hnameOf : ModFile.nameOf path asked (ModFile.ofMod later.pool mod).name =
        (ModFile.ofMod later.pool mod).name := by
      rw [ModFile.ofMod, hsavable.named]
      exact ModFile.nameOf_eq_self (Or.inl hfilled) hasked
    exact ⟨_, ModFile.ofDocument_document path hsavable.proper hnameOf, hsavable.loadedAs target⟩
  · exact ModFile.ofDocument_again hread htarget hagain
  · exact document_ofMod_toMod (ModFile.proper_of_ofDocument hread).1 hown target

/-- The links of a weapon that has a maker and room for parts. -/
def halberdLinks : Links := [("part", []), ("maker", [("9-base", [1, 0, 0])])]

/-- A weapon that a mod introduces. -/
def halberdRecords : List Record :=
  [{ id := "1-halberds", kind := "WEAPON", isNew := true, links := halberdLinks }]

/-- The mod with the weapon. -/
def halberds : Pool × Mod :=
  Mod.create {} "halberds" halberdRecords [.str "base", .str "halberds", .str "base"] [.int 7]

/-- The world in which the halberds are patched. -/
def halberdsWorld : World := { pool := halberds.1, active := some halberds.2 }

/-- The world after the halberd has been cloned and deleted. -/
def halberdsCloned : World :=
  ((Eval.onActive (Work.deleteRecord ⟨0⟩)).run
    ((Eval.onActive (Work.cloneRecord ⟨0⟩ 1)).run halberdsWorld).2).2

/-- A document that states no more than it has to. -/
def bareDocument : Plain :=
  .mapping [(.str "records",
    .list [.mapping [(.str "string_id", .int 7), (.str "type", .str "AXE")]])]

theorem halberds_load_as_saved :
    (∃ mod file, halberdsCloned.active = some mod ∧ mod.deleted = ["1-halberds"] ∧
      ModFile.ofDocument (.ofText "copy.mod") none
        (ModFile.ofMod halberdsCloned.pool mod).document = .ok file ∧
      (file.toMod {}).2.deleted = [] ∧
      ((file.toMod {}).2.records.map (file.toMod {}).1.get).map
          (fun record => (record.id, record.mod, record.links)) =
        [("2-halberds", "halberds", halberdLinks)]) ∧
    ∃ file, ModFile.ofDocument (.ofText "bare.mod") none bareDocument = .ok file ∧
      file.name = .str "bare.mod" ∧
      ModFile.ofDocument (.ofText "copy.mod") none file.document = .ok file := by
  have hpool : Pool.Tidy {} := fun _ => Record.tidy_of_empty rfl rfl
  have hname : "halberds" ≠ "" := by decide
  have hrecords : ∀ record ∈ halberdRecords, record.Tidy := by decide
  have hpools : halberdsWorld.pool = halberds.1 := rfl
  have hactive : halberdsWorld.active = some halberds.2 := rfl
  have huse : StoreUse halberdsWorld halberdsCloned :=
    (StoreUse.cloneRecord ⟨0⟩ 1 halberdsWorld).andThen (StoreUse.deleteRecord ⟨0⟩ _)
  obtain ⟨⟨mod, hmod, -, hloads⟩, hagain⟩ :=
    loads_as_saved hpool hname hrecords hpools hactive huse
  obtain ⟨file, hread, hloaded⟩ := hloads (.ofText "copy.mod") none {} nofun
  have hlast : (halberdsCloned.active.map fun mod => (mod.deleted,
      (mod.records.map fun own =>
        ({ halberdsCloned.pool.get own with mod := mod.name } : Record)).map
          fun record => (record.id, record.mod, record.links))) =
        some (["1-halberds"], [("2-halberds", "halberds", halberdLinks)]) := by
    rfl
  rw [hmod] at hlast
  obtain ⟨hdeleted, hrecords⟩ := Prod.mk.inj (Option.some.inj hlast)
  refine ⟨⟨mod, file, hmod, hdeleted, hread, hloaded.deleted, ?_⟩, ?_⟩
  · rw [hloaded.records]
    exact hrecords
  · have hbare : ModFile.ofDocument (.ofText "bare.mod") none bareDocument =
        .ok { name := .str "bare.mod", records := [{ id := "7", kind := "AXE" }] } := rfl
    exact ⟨_, hbare, rfl, (hagain _ _ _ _ hbare).1 _ none (Or.inr (by decide)) nofun⟩

end Patchwork
