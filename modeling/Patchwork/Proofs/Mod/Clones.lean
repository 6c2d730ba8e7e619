import Patchwork.Proofs.Mod.SavedMods
import Patchwork.Proofs.Mod.StoreRuns
import Patchwork.Proofs.Provenance.Store
import Patchwork.Proofs.Mod.Amendments

/-!
# Clones

Clones of a record are new records at the end of the mod, under identifiers that the mod never
had.  A call about one record writes to it and to the mod's own version of it.  A clone is its
own version for as long as the mod has it, so calls about a clone change nothing else; and calls
about another record change a clone only if they have the same identifier.
-/

namespace Patchwork

/-! ## Calls about one record -/

/-- A call to the store about one record, other than the rewriting of links. -/
inductive RecordCall
  | adopt
  | setField (name text : String)
  | forceSetField (name text declared : String)
  | addLink (source : RecordRef) (category : String) (payload : Option (List Int))
    (forced : Bool)
  | deleteRecord
  | cloneRecord (count : Int)

namespace RecordCall

/-- What a call does. -/
def work (ref : RecordRef) : RecordCall → Work Unit
  | adopt => Work.adopt ref
  | setField name text => Work.setField ref name text
  | forceSetField name text declared => Work.forceSetField ref name text declared
  | addLink source category payload forced => Work.addLink ref source category payload forced
  | deleteRecord => Work.deleteRecord ref
  | cloneRecord count => do
    let _ ← Work.cloneRecord ref count

end RecordCall

/-- A run of calls about one record leads from one world to another.  What a transformer or a
validator of links does is part of the run, and so it is about the same record. -/
inductive RunOn (ref : RecordRef) : World → World → Prop
  | beside {before after : World} (hbeside : before.Beside after) : RunOn ref before after
  | andThen {before between after : World} (hfirst : RunOn ref before between)
      (hsecond : RunOn ref between after) : RunOn ref before after
  | call (call : RecordCall) (world : World) :
      RunOn ref world ((Eval.onActive (call.work ref)).run world).2
  | editLinks (category : String) (transformers : List (Int → Eval Int))
      (accepts : List Int → Eval Bool)
      (htransformers : ∀ transformer ∈ transformers, ∀ number world,
        RunOn ref world ((transformer number).run world).2)
      (haccepts : ∀ payload world, RunOn ref world ((accepts payload).run world).2)
      (world : World) :
      RunOn ref world ((Procedure.editCategory ref category transformers accepts).run world).2

/-- A relation that doing nothing is in and that holds of the calls about a record holds of every
run of them. -/
theorem RunOn.relates {Rel : StoreRelation} (hRel : Rel.IsPreorder)
    (hkept : ∀ pool later mod, pool.KeptIn later → Rel pool mod later mod) {ref : RecordRef}
    (hwrites : Work.WritesRelate Rel ref) (hadopt : (Work.adopt ref).Relates Rel)
    (hdelete : (Work.deleteRecord ref).Relates Rel)
    (hclone : ∀ count, (Work.cloneRecord ref count).Relates Rel) {before after : World}
    (hrun : RunOn ref before after) : before.Relates Rel after := by
  induction hrun with
  | beside hbeside =>
    intro mod hmod
    exact ⟨mod, hbeside.active.trans hmod, hkept _ _ mod hbeside.kept⟩
  | andThen _ _ ihfirst ihsecond => exact World.Relates.trans hRel ihfirst ihsecond
  | call call world =>
    refine Eval.relates_onActive hRel ?_ world
    cases call with
    | adopt => exact hadopt
    | setField name text => exact Work.relates_setField hRel hwrites name text
    | forceSetField name text declared =>
      exact Work.relates_forceSetField hRel hwrites name text declared
    | addLink source category payload forced =>
      exact Work.relates_addLink hRel hwrites source category payload forced
    | deleteRecord => exact hdelete
    | cloneRecord count =>
      refine (hclone count).bind hRel fun clones before result after hyields => ?_
      obtain ⟨-, rfl⟩ := Work.yields_pure.mp hyields
      exact hRel.refl _ _
  | editLinks category transformers accepts _ _ world ihtransformers ihaccepts =>
    exact Procedure.relates_editCategory hRel hwrites ihtransformers ihaccepts world

/-! ## Identifiers -/

/-- The records that are there keep their identifiers, and only `ref` and those with its
identifier have changed. -/
def ChangesAround (ref : RecordRef) : StoreRelation :=
  fun pool _ later _ => ∀ other, pool.Holds other →
    later.Holds other ∧ (later.get other).id = (pool.get other).id ∧
      (pool.Holds ref → (pool.get other).id ≠ (pool.get ref).id →
        later.get other = pool.get other)

namespace ChangesAround

variable {ref : RecordRef}

theorem isPreorder (ref : RecordRef) : (ChangesAround ref).IsPreorder where
  refl _ _ _ hheld := ⟨hheld, rfl, fun _ _ => rfl⟩
  trans hfirst hsecond other hheld := by
    obtain ⟨hlater, hid, hsame⟩ := hfirst other hheld
    obtain ⟨hlast, hlastId, hagain⟩ := hsecond other hlater
    refine ⟨hlast, hlastId.trans hid, fun href hother => ?_⟩
    obtain ⟨hstill, hrefId, -⟩ := hfirst ref href
    rw [hagain hstill (by rwa [hid, hrefId]), hsame href hother]

theorem of_keptIn {pool later : Pool} (hkept : pool.KeptIn later) (mod patched : Mod) :
    ChangesAround ref pool mod later patched := by
  intro other hheld
  obtain ⟨hlater, hget⟩ := hkept other hheld
  exact ⟨hlater, congrArg Record.id hget, fun _ _ => hget⟩

/-- A record with the same identifier is changed. -/
theorem of_modify {pool : Pool} {own : RecordRef} {edit : Record → Record}
    (hedit : ∀ record, (edit record).id = record.id)
    (hown : (pool.get own).id = (pool.get ref).id) (mod patched : Mod) :
    ChangesAround ref pool mod (pool.modify own edit) patched := by
  intro other hheld
  refine ⟨Pool.holds_modify.mpr hheld, Pool.read_modify Record.id hedit pool own other, ?_⟩
  intro _ hother
  refine Pool.get_modify_of_ne edit fun hsame => hother ?_
  rw [← hsame, hown]

end ChangesAround

namespace Work

variable {ref : RecordRef}

theorem changesAround_write {edit : Record → Record}
    (hedit : ∀ record, (edit record).id = record.id) :
    (write ref edit).Relates (ChangesAround ref) := by
  intro before result after hyields
  have htrans := @(ChangesAround.isPreorder ref).trans
  obtain ⟨own, between, hown, -, hpool⟩ := yields_write hyields
  obtain ⟨-, hownId, hrefId, -⟩ := storeStep_ownVersion hown
  have hmade : ChangesAround ref before.pool before.mod between.pool between.mod := by
    obtain ⟨-, ⟨-, rfl⟩ | ⟨-, -, hadded, -⟩⟩ := yields_ownVersion hown
    · exact (ChangesAround.isPreorder ref).refl _ _
    · exact hadded ▸ ChangesAround.of_keptIn (before.pool.keptIn_add _) _ _
  refine htrans hmade ?_
  rw [hpool]
  split
  · next hself =>
    subst hself
    exact ChangesAround.of_modify hedit rfl _ _
  · next hother =>
    have hsame : (between.pool.get own).id = (between.pool.get ref).id :=
      hownId.trans (hrefId hother).symm
    have hfirst : ChangesAround ref between.pool between.mod (between.pool.modify own edit)
        between.mod := ChangesAround.of_modify hedit hsame _ _
    exact htrans hfirst (ChangesAround.of_modify hedit rfl _ _)

theorem changesAround_writes (ref : RecordRef) : WritesRelate (ChangesAround ref) ref where
  field _ _ := changesAround_write fun _ => rfl
  link _ := changesAround_write fun _ => rfl

theorem changesAround_adopt (ref : RecordRef) : (adopt ref).Relates (ChangesAround ref) := by
  intro before result after hyields
  obtain rfl := yields_modify.mp hyields
  refine ChangesAround.of_modify ?_ rfl _ _
  exact fun _ => rfl

theorem changesAround_deleteRecord (ref : RecordRef) :
    (deleteRecord ref).Relates (ChangesAround ref) := by
  intro before result after hyields
  obtain ⟨-, rfl⟩ | ⟨-, ⟨-, hwrite⟩ | ⟨own, -, -, hpool, -⟩⟩ := yields_deleteRecord hyields
  · exact (ChangesAround.isPreorder ref).refl _ _
  · exact (changesAround_writes ref).field _ _ before result after hwrite
  · rw [hpool]
    refine ChangesAround.of_modify ?_ rfl _ _
    exact fun _ => rfl

theorem changesAround_cloneRecord (ref : RecordRef) (count : Int) :
    (cloneRecord ref count).Relates (ChangesAround ref) := by
  intro before result after hyields
  obtain ⟨text, between, hclones, rfl⟩ := clones_cloneRecord hyields
  exact ChangesAround.of_keptIn hclones.kept _ _

end Work

/-- Calls about a record change no record with another identifier. -/
theorem RunOn.changesAround {ref : RecordRef} {before after : World}
    (hrun : RunOn ref before after) : before.Relates (ChangesAround ref) after :=
  hrun.relates (ChangesAround.isPreorder ref)
    (fun _ _ mod hkept => ChangesAround.of_keptIn hkept mod mod) (Work.changesAround_writes ref)
    (Work.changesAround_adopt ref) (Work.changesAround_deleteRecord ref)
    (Work.changesAround_cloneRecord ref)

/-- The records that are there keep their identifiers. -/
def KeepsIds : StoreRelation :=
  fun pool _ later _ => ∀ ref, pool.Holds ref →
    later.Holds ref ∧ (later.get ref).id = (pool.get ref).id

namespace KeepsIds

theorem isPreorder : KeepsIds.IsPreorder where
  refl _ _ _ hheld := ⟨hheld, rfl⟩
  trans hfirst hsecond ref hheld := by
    obtain ⟨hlater, hid⟩ := hfirst ref hheld
    obtain ⟨hlast, hlastId⟩ := hsecond ref hlater
    exact ⟨hlast, hlastId.trans hid⟩

theorem of_keptIn {pool later : Pool} (hkept : pool.KeptIn later) (mod patched : Mod) :
    KeepsIds pool mod later patched :=
  fun ref hheld => ⟨(hkept ref hheld).1, congrArg Record.id (hkept ref hheld).2⟩

theorem of_changesAround {Result : Type} {ref : RecordRef} {work : Work Result}
    (hwork : work.Relates (ChangesAround ref)) : work.Relates KeepsIds := by
  intro before result after hyields other hheld
  obtain ⟨hlater, hid, -⟩ := hwork before result after hyields other hheld
  exact ⟨hlater, hid⟩

end KeepsIds

/-- Whatever calls there are, records keep their identifiers. -/
theorem StoreRun.keepsIds {before after : World} (hrun : StoreRun before after) :
    before.Relates KeepsIds after := by
  refine hrun.relates KeepsIds.isPreorder (fun _ _ mod hkept => KeepsIds.of_keptIn hkept mod mod)
    (fun ref => ?_) (fun ref => KeepsIds.of_changesAround (Work.changesAround_deleteRecord ref))
    (fun ref count => KeepsIds.of_changesAround (Work.changesAround_cloneRecord ref count))
    (fun entries => ?_) fun entries => ?_
  · exact {
      field := fun name value =>
        KeepsIds.of_changesAround ((Work.changesAround_writes ref).field name value)
      link := fun link => KeepsIds.of_changesAround ((Work.changesAround_writes ref).link link) }
  all_goals
    intro before result after hyields
    obtain rfl := Work.yields_modify.mp hyields
    exact fun ref hheld => ⟨hheld, rfl⟩

/-! ## Records that are the mod's own -/

/-- The mod's own version of a record is the record itself, unless it has been deleted. -/
structure Mod.Owns (mod : Mod) (pool : Pool) (ref : RecordRef) : Prop where
  held : pool.Holds ref
  allHeld : ∀ own ∈ mod.records, pool.Holds own
  own : mod.find? pool (pool.get ref).id = some ref ∨ (pool.get ref).id ∈ mod.deleted

namespace Mod.Owns

variable {mod : Mod} {pool later : Pool} {ref : RecordRef}

theorem grow (howns : mod.Owns pool ref) (hkept : pool.KeptIn later) {more : List RecordRef}
    (hmore : ∀ added ∈ more, later.Holds added) :
    Mod.Owns { mod with records := mod.records ++ more } later ref where
  held := (hkept ref howns.held).1
  allHeld own hown := by
    rcases List.mem_append.mp hown with hold | hadded
    · exact (hkept own (howns.allHeld own hold)).1
    · exact hmore own hadded
  own := by
    rw [(hkept ref howns.held).2]
    refine howns.own.imp_left fun hfind => ?_
    have hstill : mod.find? later (pool.get ref).id = mod.find? pool (pool.get ref).id :=
      Mod.find?_congr
        (fun own hown => congrArg Record.id (hkept own (howns.allHeld own hown)).2) _
    rw [hfind, Mod.find?] at hstill
    rw [Mod.find?, List.find?_append, hstill, Option.some_or]

theorem modify (howns : mod.Owns pool ref) (own : RecordRef) {edit : Record → Record}
    (hedit : ∀ record, (edit record).id = record.id) :
    mod.Owns (pool.modify own edit) ref where
  held := Pool.holds_modify.mpr howns.held
  allHeld other hother := Pool.holds_modify.mpr (howns.allHeld other hother)
  own := by
    have hids := Pool.read_modify Record.id hedit pool own
    rw [hids, Mod.find?_congr fun other _ => hids other]
    exact howns.own

/-- A record that is taken out of the mod is deleted from it. -/
theorem drop (howns : mod.Owns pool ref) {own : RecordRef} {id : String}
    (hfind : mod.find? pool id = some own) :
    Mod.Owns { mod with records := mod.records.erase own, deleted := mod.deleted ++ [id] } pool
      ref where
  held := howns.held
  allHeld other hother := howns.allHeld other (List.mem_of_mem_erase hother)
  own := by
    obtain ⟨hown, hid⟩ := Mod.mem_of_find? hfind
    rcases howns.own with hself | hdeleted
    · by_cases hsame : (pool.get own).id = (pool.get ref).id
      · exact Or.inr (List.mem_append_right _ (by rw [← hsame, hid]; exact List.mem_singleton_self _))
      · obtain ⟨front, back, -, hrecords, herase⟩ := List.exists_erase_eq hown
        refine Or.inl ?_
        rw [Mod.find?, hrecords, List.find?_append, List.find?_cons_of_neg (by simpa using hsame)]
          at hself
        rw [Mod.find?, herase, List.find?_append]
        exact hself
    · exact Or.inr (List.mem_append_left _ hdeleted)

end Mod.Owns

/-- What the mod owns stays its own. -/
def KeepsOwned (ref : RecordRef) : StoreRelation :=
  fun pool mod later patched => mod.Owns pool ref → patched.Owns later ref

namespace KeepsOwned

theorem isPreorder (ref : RecordRef) : (KeepsOwned ref).IsPreorder where
  refl _ _ howns := howns
  trans hfirst hsecond howns := hsecond (hfirst howns)

theorem of_keptIn {ref : RecordRef} {pool later : Pool} {mod : Mod}
    (hkept : pool.KeptIn later) : KeepsOwned ref pool mod later mod := by
  intro howns
  have hgrown := howns.grow hkept (List.forall_mem_nil _)
  rwa [List.append_nil] at hgrown

end KeepsOwned

namespace Work

theorem keepsOwned_write (ref target : RecordRef) {edit : Record → Record}
    (hedit : ∀ record, (edit record).id = record.id) :
    (write target edit).Relates (KeepsOwned ref) := by
  intro before result after hyields howns
  obtain ⟨own, between, hown, hmod, hpool⟩ := yields_write hyields
  have hbetween : between.mod.Owns between.pool ref := by
    obtain ⟨-, ⟨-, rfl⟩ | ⟨-, -, hadded, hmods⟩⟩ := yields_ownVersion hown
    · exact howns
    · rw [hadded, hmods]
      refine howns.grow (before.pool.keptIn_add _) fun added hmem => ?_
      rw [List.mem_singleton.mp hmem]
      exact before.pool.holds_add_nextRef _
  rw [hmod, hpool]
  split
  · exact hbetween.modify own hedit
  · exact (hbetween.modify own hedit).modify target hedit

theorem keepsOwned_writes (ref target : RecordRef) : WritesRelate (KeepsOwned ref) target where
  field _ _ := keepsOwned_write ref target fun _ => rfl
  link _ := keepsOwned_write ref target fun _ => rfl

theorem keepsOwned_deleteRecord (ref target : RecordRef) :
    (deleteRecord target).Relates (KeepsOwned ref) := by
  intro before result after hyields howns
  obtain ⟨-, rfl⟩ | ⟨-, ⟨-, hwrite⟩ | ⟨own, hfind, -, hpool, hmod⟩⟩ :=
    yields_deleteRecord hyields
  · exact howns
  · exact (keepsOwned_writes ref target).field _ _ before result after hwrite howns
  · rw [hpool, hmod]
    exact (howns.drop hfind).modify target fun _ => rfl

theorem keepsOwned_cloneRecord (ref target : RecordRef) (count : Int) :
    (cloneRecord target count).Relates (KeepsOwned ref) := by
  intro before result after hyields howns
  obtain ⟨text, between, hclones, rfl⟩ := clones_cloneRecord hyields
  have hgrown := howns.grow hclones.kept fun clone hclone => (hclones.fresh clone hclone).2
  rwa [← hclones.mod] at hgrown

theorem keepsOwned_adopt (ref : RecordRef) : (adopt ref).Relates (KeepsOwned ref) := by
  intro before result after hyields howns
  obtain rfl := yields_modify.mp hyields
  refine (howns.grow (Pool.KeptIn.refl _) fun added hadded => ?_).modify ref fun _ => rfl
  rw [List.mem_singleton.mp hadded]
  exact howns.held

theorem keepsOwned_addDependencies (ref : RecordRef) (entries : List Plain) :
    (addDependencies entries).Relates (KeepsOwned ref) := by
  intro before result after hyields howns
  obtain rfl := yields_modify.mp hyields
  exact ⟨howns.held, howns.allHeld, howns.own⟩

theorem keepsOwned_addReferences (ref : RecordRef) (entries : List Plain) :
    (addReferences entries).Relates (KeepsOwned ref) := by
  intro before result after hyields howns
  obtain rfl := yields_modify.mp hyields
  exact ⟨howns.held, howns.allHeld, howns.own⟩

end Work

/-- Whatever calls there are, what the mod owns stays its own. -/
theorem StoreRun.keepsOwned {before after : World} (hrun : StoreRun before after)
    (ref : RecordRef) : before.Relates (KeepsOwned ref) after :=
  hrun.relates (KeepsOwned.isPreorder ref) (fun _ _ _ hkept => KeepsOwned.of_keptIn hkept)
    (Work.keepsOwned_writes ref) (Work.keepsOwned_deleteRecord ref)
    (Work.keepsOwned_cloneRecord ref) (Work.keepsOwned_addDependencies ref)
    (Work.keepsOwned_addReferences ref)

/-- A record that the mod owns stays its own, and it is the only one of those there are that has
changed. -/
def ChangesOwned (ref : RecordRef) : StoreRelation :=
  fun pool mod later patched => mod.Owns pool ref → patched.Owns later ref ∧
    ∀ other, pool.Holds other → later.Holds other ∧ (other ≠ ref → later.get other = pool.get other)

namespace ChangesOwned

variable {ref : RecordRef}

theorem isPreorder (ref : RecordRef) : (ChangesOwned ref).IsPreorder where
  refl _ _ howns := ⟨howns, fun _ hheld => ⟨hheld, fun _ => rfl⟩⟩
  trans hfirst hsecond howns := by
    obtain ⟨hbetween, hsame⟩ := hfirst howns
    obtain ⟨hlast, hagain⟩ := hsecond hbetween
    refine ⟨hlast, fun other hheld => ?_⟩
    obtain ⟨hlater, hget⟩ := hsame other hheld
    obtain ⟨hstill, hlastGet⟩ := hagain other hlater
    exact ⟨hstill, fun hother => (hlastGet hother).trans (hget hother)⟩

theorem of_keptIn {pool later : Pool} {mod patched : Mod}
    (hkeeps : KeepsOwned ref pool mod later patched) (hkept : pool.KeptIn later) :
    ChangesOwned ref pool mod later patched :=
  fun howns => ⟨hkeeps howns, fun other hheld =>
    ⟨(hkept other hheld).1, fun _ => (hkept other hheld).2⟩⟩

theorem of_modify {pool : Pool} {mod patched : Mod} {edit : Record → Record}
    (hkeeps : KeepsOwned ref pool mod (pool.modify ref edit) patched) :
    ChangesOwned ref pool mod (pool.modify ref edit) patched :=
  fun howns => ⟨hkeeps howns, fun _ hheld =>
    ⟨Pool.holds_modify.mpr hheld, fun hother => pool.get_modify_of_ne edit hother.symm⟩⟩

end ChangesOwned

namespace Work

variable {ref : RecordRef}

/-- A record that the mod owns is written to in one place. -/
theorem changesOwned_write {edit : Record → Record}
    (hedit : ∀ record, (edit record).id = record.id) :
    (write ref edit).Relates (ChangesOwned ref) := by
  intro before result after hyields howns
  have hkeeps := keepsOwned_write ref ref hedit before result after hyields
  obtain ⟨own, between, hown, -, hpool⟩ := yields_write hyields
  obtain ⟨hundeleted, hfound⟩ := yields_ownVersion hown
  have hself := howns.own.resolve_right hundeleted
  rcases hfound with ⟨hfind, rfl⟩ | ⟨hnone, -⟩
  · obtain rfl := Option.some.inj (hself.symm.trans hfind)
    rw [if_pos rfl] at hpool
    rw [hpool] at hkeeps ⊢
    exact ChangesOwned.of_modify hkeeps howns
  · rw [hself] at hnone
    cases hnone

theorem changesOwned_writes (ref : RecordRef) : WritesRelate (ChangesOwned ref) ref where
  field _ _ := changesOwned_write fun _ => rfl
  link _ := changesOwned_write fun _ => rfl

theorem changesOwned_adopt (ref : RecordRef) : (adopt ref).Relates (ChangesOwned ref) := by
  intro before result after hyields
  have hkeeps := keepsOwned_adopt ref before result after hyields
  obtain rfl := yields_modify.mp hyields
  exact ChangesOwned.of_modify hkeeps

theorem changesOwned_deleteRecord (ref : RecordRef) :
    (deleteRecord ref).Relates (ChangesOwned ref) := by
  intro before result after hyields
  have hkeeps := keepsOwned_deleteRecord ref ref before result after hyields
  obtain ⟨-, rfl⟩ | ⟨-, ⟨-, hwrite⟩ | ⟨own, -, -, hpool, -⟩⟩ := yields_deleteRecord hyields
  · exact (ChangesOwned.isPreorder ref).refl _ _
  · exact (changesOwned_writes ref).field _ _ before result after hwrite
  · rw [hpool] at hkeeps ⊢
    exact ChangesOwned.of_modify hkeeps

theorem changesOwned_cloneRecord (ref : RecordRef) (count : Int) :
    (cloneRecord ref count).Relates (ChangesOwned ref) := by
  intro before result after hyields
  have hkeeps := keepsOwned_cloneRecord ref ref count before result after hyields
  obtain ⟨text, between, hclones, rfl⟩ := clones_cloneRecord hyields
  exact ChangesOwned.of_keptIn hkeeps hclones.kept

end Work

/-- Calls about a record that the mod owns change no other record. -/
theorem RunOn.changesOwned {ref : RecordRef} {before after : World}
    (hrun : RunOn ref before after) : before.Relates (ChangesOwned ref) after :=
  hrun.relates (ChangesOwned.isPreorder ref)
    (fun _ _ _ hkept => ChangesOwned.of_keptIn (KeepsOwned.of_keptIn hkept) hkept)
    (Work.changesOwned_writes ref) (Work.changesOwned_adopt ref)
    (Work.changesOwned_deleteRecord ref) (Work.changesOwned_cloneRecord ref)

/-! ## Making clones -/

namespace Work

/-- Clones can be made of any record. -/
theorem exists_yields_appendClones (source : Record) (name : String) (count number : Nat)
    (before : Workbench) :
    ∃ clones after, (appendClones source name count number).Yields before clones after ∧
      after.marks = before.marks := by
  induction count generalizing number before with
  | zero => exact ⟨[], before, yields_pure.mpr ⟨rfl, rfl⟩, rfl⟩
  | succ count ih =>
    rw [appendClones]
    refine exists_yields_bind ⟨_, _, yields_append.mpr ⟨rfl, rfl⟩, ?_⟩
    obtain ⟨others, after, hothers, hmarks⟩ := ih (number + 1) _
    refine exists_yields_bind ⟨others, after, hothers, ?_⟩
    exact ⟨_, after, yields_pure.mpr ⟨rfl, rfl⟩, hmarks⟩

theorem exists_yields_cloneRecord (ref : RecordRef) (count : Nat) (before : Workbench) :
    ∃ clones after, (cloneRecord ref count).Yields before clones after ∧
      after.marks = before.marks := by
  unfold cloneRecord
  rw [if_neg (Int.not_lt.mpr (Int.natCast_nonneg count))]
  refine exists_yields_bind ⟨before, before, yields_get.mpr ⟨rfl, rfl⟩, ?_⟩
  obtain ⟨clones, between, hclones, hmarks⟩ :=
    exists_yields_appendClones (before.pool.get ref) before.mod.name count
      (before.mod.nextIdNumber before.pool) before
  refine exists_yields_bind ⟨clones, between, hclones, ?_⟩
  refine exists_yields_bind ⟨(), _, yields_note.mpr rfl, ?_⟩
  exact ⟨clones, _, yields_pure.mpr ⟨rfl, rfl⟩, hmarks⟩

end Work

/-- New records have been put at the end of a mod, with the content of a record and identifiers
that the mod never had.  Nothing else has changed. -/
structure Cloned (source : Record) (count : Nat) (clones : List RecordRef) (pool : Pool) (mod : Mod)
    (later : Pool) (patched : Mod) : Prop where
  count : clones.length = count
  atEnd : patched = { mod with records := mod.records ++ clones }
  made : ∀ clone ∈ clones, ¬ pool.Holds clone ∧ later.Holds clone
  apart : (clones.map fun clone => (later.get clone).id).Nodup
  unknown : ∀ clone ∈ clones, ¬ mod.Knows pool (later.get clone).id
  content : ∀ clone ∈ clones, later.get clone = { source with
    id := (later.get clone).id
    mod := mod.name
    isNew := true
    fields := source.fields.remove (.str Record.removedField) }
  kept : pool.KeptIn later

namespace Cloned

variable {source : Record} {count : Nat} {clones : List RecordRef} {pool later : Pool}
  {mod patched : Mod}

theorem of_clones {before after : Workbench}
    (hclones : Work.Clones source count (before.mod.nextIdNumber before.pool) clones before after) :
    Cloned source count clones before.pool before.mod after.pool after.mod where
  count := by simpa using congrArg List.length hclones.made
  atEnd := hclones.mod
  made := hclones.fresh
  apart := hclones.distinct
  unknown := by
    intro clone hclone hknows
    obtain ⟨-, -, given, hleast, hid⟩ := hclones.of_mem hclone
    have hnumber : Mod.idNumber? (after.pool.get clone).id = some given := by
      rw [hid, Mod.idNumber?_numbered]
    exact Nat.not_lt.mpr hleast (Mod.idNumber_lt_next hknows hnumber)
  content := by
    intro clone hclone
    have hmem := List.mem_map_of_mem (f := after.pool.get) hclone
    rw [hclones.made] at hmem
    obtain ⟨given, -, hgiven⟩ := List.mem_map.mp hmem
    rw [← hgiven]
    rfl
  kept := hclones.kept

/-- The mod owns the clones. -/
theorem owns (hcloned : Cloned source count clones pool mod later patched)
    (hheld : ∀ own ∈ mod.records, pool.Holds own) {clone : RecordRef} (hclone : clone ∈ clones) :
    patched.Owns later clone where
  held := (hcloned.made clone hclone).2
  allHeld := by
    intro own hown
    rw [hcloned.atEnd] at hown
    rcases List.mem_append.mp hown with hold | hnew
    · exact (hcloned.kept own (hheld own hold)).1
    · exact (hcloned.made own hnew).2
  own := by
    refine Or.inl ?_
    have hnone : mod.find? later (later.get clone).id = none := by
      refine Mod.find?_eq_none.mpr fun own hown hid => hcloned.unknown clone hclone (Or.inl ?_)
      rw [(hcloned.kept own (hheld own hown)).2] at hid
      exact ⟨own, hown, hid⟩
    rw [Mod.find?] at hnone
    rw [hcloned.atEnd, Mod.find?, List.find?_append, hnone, Option.none_or]
    obtain ⟨front, back, rfl⟩ := List.append_of_mem hclone
    have hothers : ∀ other ∈ front, ¬ (later.get other).id = (later.get clone).id := by
      intro other hother hsame
      have happart := hcloned.apart
      rw [List.map_append, List.map_cons] at happart
      exact (List.nodup_append.mp happart).2.2 _ (List.mem_map_of_mem hother) _
        List.mem_cons_self hsame
    rw [List.find?_append, List.find?_eq_none.mpr fun other hother => by
      simpa using hothers other hother, Option.none_or]
    simp

end Cloned

/-- Such a record. -/
def namesake : Record :=
  { id := "1-sharper", kind := "WEAPON", mod := "base", isNew := true,
    fields := [(.str "damage", .int 5)] }

/-- The record and a mod that has none. -/
def namesakeWorld : World := { pool := ⟨#[namesake]⟩, active := some { name := "sharper" } }

/-- The world after the record has been cloned. -/
def namesakeCloned : World := ((Eval.onActive (Work.cloneRecord ⟨0⟩ 1)).run namesakeWorld).2

/-- The world after a field of the record has been set. -/
def namesakeChanged : World :=
  ((Eval.onActive (Work.setField ⟨0⟩ "damage" "9")).run namesakeCloned).2

end Patchwork
