import Patchwork.Evaluation.Procedures
import Patchwork.Proofs.Mod.Yields
import Patchwork.Proofs.Remerge.Mirrors

/-!
# Store operations on the views

A store operation is made of four changes: other records come into the pool,
the mod adopts a view by an override, an edit is written to the mod's version
and to the view, and a record that the mod introduced is dropped.  A mod that
mirrors its views does so after each of them.

So every operation of the store that succeeds on a view leaves a mod that mirrors
its views.  Only deleting a record that the mod introduced drops an identifier.
-/

namespace Patchwork

namespace Merge

/-! ## The changes -/

namespace Mirrors

variable {front : List Mod} {kind : String} {views : Group} {created : List String}
variable {pool : Pool} {mod : Mod}

/-- Other records come into the pool. -/
theorem grow (hmirrors : Mirrors front kind views created pool mod) {later : Pool}
    (hkept : pool.KeptIn later) : Mirrors front kind views created later mod := by
  have hown : ∀ own ∈ mod.records, later.get own = pool.get own :=
    fun own hmem => (hkept own (hmirrors.ownHeld own hmem)).2
  have hview : ∀ view ∈ views.records, later.get view = pool.get view :=
    fun view hmem => (hkept view (hmirrors.viewHeld view hmem)).2
  have hall : ∀ other ∈ front ++ [mod], ∀ ref ∈ other.records,
      later.get ref = pool.get ref := by
    intro other hother ref href
    obtain hfront | hlast := List.mem_append.mp hother
    · exact (hkept ref (hmirrors.frontHeld other hfront ref href)).2
    · rw [List.mem_singleton.mp hlast] at href
      exact hown ref href
  exact {
    toPlaced := hmirrors.of_sameCards hkept.sameCards
    tidy := fun own hmem => hown own hmem ▸ hmirrors.tidy own hmem
    dropped := fun id hid => by
      rw [Mod.version?_congr hown]
      exact hmirrors.dropped id hid
    present := fun id hid hdeleted => by
      rw [Mod.version?_congr hown]
      exact hmirrors.present id hid hdeleted
    remade := fun view hmem hdeleted => by
      rw [Remade, mergedIn?_congr hall, hview _ (mem_records hmem)]
      rw [hview _ (mem_records hmem)] at hdeleted
      exact hmirrors.remade view hmem hdeleted
    complete := fun id hid => by
      rw [mergedIn?_congr hall]
      exact hmirrors.complete id fun view hmem => hview view hmem ▸ hid view hmem }

/-- The pool and the mod with an override of a view. -/
theorem adopt (hmirrors : Mirrors front kind views created pool mod) {view : RecordRef}
    (hview : view ∈ views.records)
    (hnone : mod.find? pool (pool.get view).id = none)
    (hdeleted : (pool.get view).id ∉ mod.deleted) :
    Mirrors front kind views created (pool.add (overrideOf (pool.get view) mod.name))
      (mod.addRecord pool.nextRef) := by
  have hkept := pool.keptIn_add (overrideOf (pool.get view) mod.name)
  have hget := pool.get_add_nextRef (overrideOf (pool.get view) mod.name)
  have hheld := pool.holds_add_nextRef (overrideOf (pool.get view) mod.name)
  generalize pool.add (overrideOf (pool.get view) mod.name) = later at hkept hget hheld
  have hgrown := hmirrors.grow hkept
  have hsame : later.get view = pool.get view :=
    (hkept view (hmirrors.viewHeld view hview)).2
  have hold : ∀ id, mod.version? later id = mod.version? pool id :=
    Mod.version?_congr fun own hown => (hkept own (hmirrors.ownHeld own hown)).2
  have hnoversion : mod.version? later (later.get view).id = none := by
    rw [hold, hsame, Mod.version?_eq_none]
    exact hnone
  have hversion : (mod.addRecord pool.nextRef).version? later (later.get view).id =
      some (overrideOf (later.get view) mod.name) := by
    rw [Mod.version?_addRecord, hnoversion, hget, hsame]
    simp [overrideOf]
  have hid : (later.get pool.nextRef).id = (later.get view).id := by
    rw [hget, hsame]
    rfl
  apply hgrown.of_change hview
  · refine hgrown.addRecord hheld ?_ ?_ hid ?_ ?_ (Mod.version?_eq_none.mp hnoversion)
    · exact fun other hother hmem =>
        pool.not_holds_nextRef (hmirrors.frontHeld other hother _ hmem)
    · exact fun hmem => pool.not_holds_nextRef (hmirrors.viewHeld _ hmem)
    · rw [hget]
      exact hmirrors.viewKind view hview
    · rw [hget]
      rfl
  · exact (Pool.KeptIn.refl later).sameCards
  · rfl
  · exact fun _ _ _ _ => rfl
  · intro id hdiff
    have hne : ¬ (pool.get view).id = id := fun heq => hdiff (hsame ▸ heq.symm)
    rw [Mod.version?_addRecord, hget]
    simp [overrideOf, hne]
  · exact fun _ _ _ => rfl
  · simp only [Mod.addRecord, List.mem_append, List.mem_singleton]
    rintro own (hown | rfl)
    · exact hgrown.tidy own hown
    · rw [hget]
      exact Record.tidy_of_empty rfl rfl
  · exact fun _ _ => Iff.rfl
  · intro hmem
    exact absurd (hsame ▸ hmem) hdeleted
  · intro hintroduced hmem
    obtain ⟨own, hown, -⟩ := hgrown.present _ hintroduced hmem
    rw [hnoversion] at hown
    cases hown
  · rintro member hmember rfl hmem
    obtain ⟨again, hagain, halike⟩ := hgrown.overlaid_of_remade hmember hmem
    rw [hnoversion] at hagain
    rw [hversion]
    exact overlaid_overrideOf hagain halike

/-- An edit of the mod's version of a view and of the view. -/
theorem edit (hmirrors : Mirrors front kind views created pool mod) {view own : RecordRef}
    (hview : view ∈ views.records)
    (hfind : mod.find? pool (pool.get view).id = some own) (edit : Record.Edit) :
    Mirrors front kind views created
      ((pool.modify own edit.apply).modify view edit.apply) mod := by
  obtain ⟨hown, hid⟩ := Mod.mem_of_find? hfind
  have hne : own ≠ view := by
    rintro rfl
    exact hmirrors.viewNotOwn own hview hown
  have hcards := (pool.sameCards_modify_apply own edit).trans
    ((pool.modify own edit.apply).sameCards_modify_apply view edit)
  have hother : ∀ ref, ref ≠ own → ref ≠ view →
      ((pool.modify own edit.apply).modify view edit.apply).get ref = pool.get ref := by
    intro ref hown hview
    rw [Pool.get_modify_of_ne _ (Ne.symm hview), Pool.get_modify_of_ne _ (Ne.symm hown)]
  have hviewed : ((pool.modify own edit.apply).modify view edit.apply).get view =
      edit.apply (pool.get view) := by
    rw [Pool.get_modify_self _ (Pool.holds_modify.mpr (hmirrors.viewHeld view hview)),
      Pool.get_modify_of_ne _ hne]
  have howned : ((pool.modify own edit.apply).modify view edit.apply).get own =
      edit.apply (pool.get own) := by
    rw [Pool.get_modify_of_ne _ (Ne.symm hne),
      Pool.get_modify_self _ (hmirrors.ownHeld own hown)]
  have hversions : ∀ id,
      mod.version? ((pool.modify own edit.apply).modify view edit.apply) id =
        mod.version? (pool.modify own edit.apply) id := by
    apply Mod.version?_congr
    intro other hmem
    have hapart : view ≠ other := by
      rintro rfl
      exact hmirrors.viewNotOwn view hview hmem
    rw [Pool.get_modify_of_ne _ hapart]
  have hversion : mod.version? ((pool.modify own edit.apply).modify view edit.apply)
      (pool.get view).id = some (edit.apply (pool.get own)) := by
    rw [hversions, Mod.version?_modify_self hfind (hmirrors.ownHeld own hown)]
  have hbefore : mod.version? pool (pool.get view).id = some (pool.get own) := by
    rw [Mod.version?, hfind]
    rfl
  apply hmirrors.of_change hview (hmirrors.of_sameCards hcards) hcards rfl
  · intro other hfront ref href
    apply hother
    · rintro rfl
      exact hmirrors.ownApart other hfront ref href hown
    · rintro rfl
      exact hmirrors.viewApart other hfront ref href hview
  · intro id hdiff
    rw [hversions, Mod.version?_modify_of_ne]
    rw [hid]
    exact Ne.symm hdiff
  · intro other hmem hdiff
    apply hother other _ hdiff
    rintro rfl
    exact hmirrors.viewNotOwn other hmem hown
  · intro other hmem
    by_cases hsame : other = own
    · rw [hsame, howned]
      exact edit.tidy_apply (hmirrors.tidy own hown)
    · have hdiff : other ≠ view := by
        rintro rfl
        exact hmirrors.viewNotOwn other hview hmem
      rw [hother other hsame hdiff]
      exact hmirrors.tidy other hmem
  · exact fun _ _ => Iff.rfl
  · intro hmem
    have hnone := (hmirrors.dropped _ hmem).2
    rw [hbefore] at hnone
    cases hnone
  · intro hmem hkept
    obtain ⟨found, hfound, hnew⟩ := hmirrors.present _ hmem hkept
    rw [hbefore] at hfound
    cases hfound
    exact ⟨edit.apply (pool.get own), hversion, by simpa using hnew⟩
  · rintro member hmember rfl hkept
    obtain ⟨again, hagain, halike⟩ := hmirrors.overlaid_of_remade hmember hkept
    rw [hbefore] at hagain
    obtain ⟨edited, hedited, hlike⟩ := overlaid_edit (hmirrors.tidy own hown) hagain edit
    refine ⟨edited, ?_, ?_⟩
    · rw [hversion]
      exact hedited
    · rw [hviewed]
      exact hlike.trans (edit.alike_apply halike)

/-- A record that the mod introduced is dropped, and its view edited. -/
theorem drop (hmirrors : Mirrors front kind views created pool mod) {view own : RecordRef}
    (hview : view ∈ views.records)
    (hfind : mod.find? pool (pool.get view).id = some own)
    (hnew : (pool.get own).isNew = true) (edit : Record.Edit) :
    Mirrors front kind views created (pool.modify view edit.apply)
      (mod.dropRecord own (pool.get view).id) := by
  obtain ⟨hown, hid⟩ := Mod.mem_of_find? hfind
  have hcards := pool.sameCards_modify_apply view edit
  have hother : ∀ ref, ref ≠ view → (pool.modify view edit.apply).get ref = pool.get ref :=
    fun ref hdiff => Pool.get_modify_of_ne _ (Ne.symm hdiff)
  have howns : ∀ other ∈ mod.records, other ≠ view := by
    rintro other hmem rfl
    exact hmirrors.viewNotOwn other hview hmem
  have hversions : ∀ id,
      (mod.dropRecord own (pool.get view).id).version? (pool.modify view edit.apply) id =
        if (pool.get own).id = id then none else mod.version? pool id := by
    intro id
    rw [← Mod.version?_dropRecord hmirrors.ownOnce hown (pool.get view).id id]
    apply Mod.version?_congr
    exact fun other hmem => hother other (howns other (List.mem_of_mem_erase hmem))
  have hplaced : Placed front kind views created (pool.modify view edit.apply)
      (mod.dropRecord own (pool.get view).id) :=
    (hmirrors.of_sameCards hcards).of_sublist List.erase_sublist
  apply hmirrors.of_change hview hplaced hcards rfl
  · intro other hfront ref href
    apply hother
    rintro rfl
    exact hmirrors.viewApart other hfront ref href hview
  · intro id hdiff
    rw [hversions, if_neg]
    rw [hid]
    exact Ne.symm hdiff
  · exact fun other _ hdiff => hother other hdiff
  · intro other hmem
    have hmember := List.mem_of_mem_erase hmem
    rw [hother other (howns other hmember)]
    exact hmirrors.tidy other hmember
  · intro id hdiff
    simp [Mod.dropRecord, hdiff]
  · intro _
    refine ⟨?_, ?_⟩
    · rw [← hid]
      exact hmirrors.introduced own hown hnew
    · rw [hversions, if_pos hid]
  · intro _ hkept
    exact absurd (List.mem_append_right _ (List.mem_singleton_self _)) hkept
  · rintro member hmember rfl hkept
    exact absurd (List.mem_append_right _ (List.mem_singleton_self _)) hkept

end Mirrors

/-! ## What follows from them -/

/-- The mod mirrors its views after something has been done, which has dropped
the given identifiers. -/
structure Follows (front : List Mod) (kind : String) (views : Group) (created : List String)
    (pool : Pool) (mod : Mod) (dropped : String → Prop) (later : Pool) (patched : Mod) :
    Prop where
  mirrors : Mirrors front kind views created later patched
  cards : pool.SameCards later
  name : patched.name = mod.name
  deleted : ∀ id, id ∈ patched.deleted ↔ id ∈ mod.deleted ∨ dropped id

/-- No identifier is dropped. -/
def nothing (_ : String) : Prop := False

namespace Follows

variable {front : List Mod} {kind : String} {views : Group} {created : List String}
variable {pool later last : Pool} {mod patched final : Mod}

theorem refl (hmirrors : Mirrors front kind views created pool mod) :
    Follows front kind views created pool mod nothing pool mod where
  mirrors := hmirrors
  cards := (Pool.KeptIn.refl pool).sameCards
  name := rfl
  deleted id := by simp [nothing]

theorem trans {dropped more : String → Prop}
    (hfirst : Follows front kind views created pool mod dropped later patched)
    (hsecond : Follows front kind views created later patched more last final) :
    Follows front kind views created pool mod (fun id => dropped id ∨ more id) last final where
  mirrors := hsecond.mirrors
  cards := hfirst.cards.trans hsecond.cards
  name := hsecond.name.trans hfirst.name
  deleted id := by rw [hsecond.deleted, hfirst.deleted, or_assoc]

theorem congr {dropped same : String → Prop}
    (hfollows : Follows front kind views created pool mod dropped later patched)
    (hsame : ∀ id, dropped id ↔ same id) :
    Follows front kind views created pool mod same later patched where
  mirrors := hfollows.mirrors
  cards := hfollows.cards
  name := hfollows.name
  deleted id := by rw [hfollows.deleted, hsame]

theorem trans_nothing {dropped : String → Prop}
    (hfirst : Follows front kind views created pool mod nothing later patched)
    (hsecond : Follows front kind views created later patched dropped last final) :
    Follows front kind views created pool mod dropped last final :=
  (hfirst.trans hsecond).congr fun _ => by simp [nothing]

theorem grow (hmirrors : Mirrors front kind views created pool mod)
    (hkept : pool.KeptIn later) :
    Follows front kind views created pool mod nothing later mod where
  mirrors := hmirrors.grow hkept
  cards := hkept.sameCards
  name := rfl
  deleted id := by simp [nothing]

end Follows

section

variable {front : List Mod} {kind : String} {views : Group} {created : List String}
variable {before after : Workbench} {view : RecordRef}

/-! ## Writing -/

/-- After the own version of a view was asked for there is one. -/
theorem follows_ownVersion
    (hmirrors : Mirrors front kind views created before.pool before.mod)
    (hview : view ∈ views.records) {own : RecordRef}
    (hyields : (Work.ownVersion view).Yields before own after) :
    Follows front kind views created before.pool before.mod nothing after.pool after.mod ∧
      after.mod.find? after.pool (after.pool.get view).id = some own := by
  obtain ⟨hdeleted, ⟨hfind, rfl⟩ | ⟨hnone, rfl, hpool, hmod⟩⟩ := Work.yields_ownVersion hyields
  · exact ⟨Follows.refl hmirrors, hfind⟩
  · change after.pool = before.pool.add (overrideOf (before.pool.get view) before.mod.name)
      at hpool
    have hadopted := hmirrors.adopt hview hnone hdeleted
    have hkept := before.pool.keptIn_add (overrideOf (before.pool.get view) before.mod.name)
    have hget :=
      before.pool.get_add_nextRef (overrideOf (before.pool.get view) before.mod.name)
    rw [← hpool] at hadopted hkept hget
    rw [← hmod] at hadopted
    refine ⟨⟨hadopted, hkept.sameCards, ?_, ?_⟩, ?_⟩
    · rw [hmod]
      rfl
    · intro id
      simp [hmod, Mod.addRecord, nothing]
    · have hold : before.mod.find? after.pool (before.pool.get view).id = none := by
        rw [Mod.find?_congr, hnone]
        intro own hown
        rw [(hkept own (hmirrors.ownHeld own hown)).2]
      rw [(hkept view (hmirrors.viewHeld view hview)).2, hmod]
      apply Mod.find?_addRecord hold
      rw [hget]
      rfl

theorem follows_write (hmirrors : Mirrors front kind views created before.pool before.mod)
    (hview : view ∈ views.records) (edit : Record.Edit) {result : PUnit}
    (hyields : (Work.write view edit.apply).Yields before result after) :
    Follows front kind views created before.pool before.mod nothing after.pool after.mod := by
  obtain ⟨own, between, hown, hmod, hpool⟩ := Work.yields_write hyields
  obtain ⟨hadopted, hfind⟩ := follows_ownVersion hmirrors hview hown
  have hne : own ≠ view := by
    rintro rfl
    exact hadopted.mirrors.viewNotOwn own hview (Mod.mem_of_find? hfind).1
  rw [hpool, hmod, if_neg hne]
  apply hadopted.trans_nothing
  exact {
    mirrors := hadopted.mirrors.edit hview hfind edit
    cards := (between.pool.sameCards_modify_apply own edit).trans
      ((between.pool.modify own edit.apply).sameCards_modify_apply view edit)
    name := rfl
    deleted := fun id => by simp [nothing] }

/-! ## Fields -/

/-- A value is marked and then written into a field. -/
theorem follows_markAndWrite
    (hmirrors : Mirrors front kind views created before.pool before.mod)
    (hview : view ∈ views.records) {value : Plain} {name : String} {result : PUnit}
    (hyields : (Work.mark value >>= fun marked =>
      Work.write view fun target => target.setField name marked).Yields before result after) :
    Follows front kind views created before.pool before.mod nothing after.pool after.mod := by
  obtain ⟨marked, between, hmark, hwrite⟩ := Work.yields_bind.mp hyields
  have hsame := Work.sameRecords_of_mark hmark
  rw [← hsame.pool, ← hsame.mod] at hmirrors ⊢
  exact follows_write hmirrors hview (.field name marked) hwrite

theorem follows_setField (hmirrors : Mirrors front kind views created before.pool before.mod)
    (hview : view ∈ views.records) {name text : String} {result : PUnit}
    (hyields : (Work.setField view name text).Yields before result after) :
    Follows front kind views created before.pool before.mod nothing after.pool after.mod := by
  unfold Work.setField at hyields
  obtain ⟨record, _, hrecord, hrest⟩ := Work.yields_bind.mp hyields
  obtain ⟨-, rfl⟩ := Work.yields_record.mp hrecord
  split at hrest
  · exact absurd hrest Work.not_yields_throw
  · obtain ⟨value, _, hconvert, hwrite⟩ := Work.yields_bind.mp hrest
    obtain ⟨-, rfl⟩ := Work.yields_lift hconvert
    exact follows_markAndWrite hmirrors hview hwrite

theorem follows_forceSetField
    (hmirrors : Mirrors front kind views created before.pool before.mod)
    (hview : view ∈ views.records) {name text declared : String} {result : PUnit}
    (hyields : (Work.forceSetField view name text declared).Yields before result after) :
    Follows front kind views created before.pool before.mod nothing after.pool after.mod := by
  unfold Work.forceSetField at hyields
  split at hyields
  · exact absurd hyields Work.not_yields_throw
  · obtain ⟨value, _, hconvert, hwrite⟩ := Work.yields_bind.mp hyields
    obtain ⟨-, rfl⟩ := Work.yields_lift hconvert
    exact follows_markAndWrite hmirrors hview hwrite

/-! ## Links -/

theorem follows_addLink (hmirrors : Mirrors front kind views created before.pool before.mod)
    (hview : view ∈ views.records) {source : RecordRef} {category : String}
    {payload : Option (List Int)} {forced : Bool} {result : PUnit}
    (hyields : (Work.addLink view source category payload forced).Yields before result after) :
    Follows front kind views created before.pool before.mod nothing after.pool after.mod := by
  unfold Work.addLink at hyields
  obtain ⟨target, _, htarget, hrest⟩ := Work.yields_bind.mp hyields
  obtain ⟨-, rfl⟩ := Work.yields_record.mp htarget
  obtain ⟨linked, _, hlinked, hlink⟩ := Work.yields_bind.mp hrest
  obtain ⟨-, rfl⟩ := Work.yields_record.mp hlinked
  split at hlink
  · rw [Work.yields_note] at hlink
    subst hlink
    exact Follows.refl hmirrors
  · exact follows_write hmirrors hview
      (.link ⟨category, linked.id, payload.getD Record.defaultPayload⟩) hlink

theorem follows_relink (hmirrors : Mirrors front kind views created before.pool before.mod)
    (hview : view ∈ views.records) {link : Link} {result : PUnit}
    (hyields : (Work.relink view link).Yields before result after) :
    Follows front kind views created before.pool before.mod nothing after.pool after.mod :=
  follows_write hmirrors hview (.link link) hyields

/-! ## Deleting -/

/-- Deleting drops the identifier exactly when the mod introduced it. -/
theorem follows_deleteRecord
    (hmirrors : Mirrors front kind views created before.pool before.mod)
    (hview : view ∈ views.records) {result : PUnit}
    (hyields : (Work.deleteRecord view).Yields before result after) :
    Follows front kind views created before.pool before.mod
      (fun id => id = (before.pool.get view).id ∧ id ∈ created) after.pool after.mod := by
  -- Nothing is dropped where the mod has not introduced the identifier.
  have hkept : (before.pool.get view).id ∉ created →
      Follows front kind views created before.pool before.mod nothing after.pool after.mod →
      Follows front kind views created before.pool before.mod
        (fun id => id = (before.pool.get view).id ∧ id ∈ created) after.pool after.mod := by
    intro habsent hfollows
    apply hfollows.congr
    intro id
    refine ⟨False.elim, ?_⟩
    rintro ⟨rfl, hid⟩
    exact habsent hid
  obtain ⟨hdeleted, rfl⟩ | ⟨hdeleted, ⟨hold, hwrite⟩ | ⟨own, hfind, hnew, hpool, hmod⟩⟩ :=
    Work.yields_deleteRecord hyields
  · refine { Follows.refl hmirrors with deleted := ?_ }
    intro id
    constructor
    · exact Or.inl
    · rintro (hid | ⟨rfl, -⟩)
      · exact hid
      · exact hdeleted
  · refine hkept (fun hid => ?_) (follows_write hmirrors hview
      (.field Record.removedField (.bool true)) hwrite)
    obtain ⟨found, hfound, hfoundNew⟩ := hmirrors.present _ hid hdeleted
    obtain ⟨own, hfind, rfl⟩ := Option.map_eq_some_iff.mp hfound
    rw [hold own hfind] at hfoundNew
    cases hfoundNew
  · obtain ⟨hown, hid⟩ := Mod.mem_of_find? hfind
    rw [hpool, hmod]
    exact {
      mirrors := hmirrors.drop hview hfind hnew (.field Record.removedField (.bool true))
      cards := before.pool.sameCards_modify_apply view
        (.field Record.removedField (.bool true))
      name := rfl
      deleted := by
        intro id
        rw [List.mem_append, List.mem_singleton]
        refine or_congr Iff.rfl ⟨?_, And.left⟩
        rintro rfl
        exact ⟨rfl, hid ▸ hmirrors.introduced own hown hnew⟩ }

end

end Merge

end Patchwork
