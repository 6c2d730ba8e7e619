import Patchwork.Proofs.Remerge.Baseline
import Patchwork.Proofs.Remerge.Operations

/-!
# Merging again what a script has changed

A script changes merged records through calls to the store of the mod that is
patched.  When that mod is saved and takes the place of its loaded copy, merging
again gives the records as the script has left them, and only records that the
mod introduced and the script deleted are gone.
-/

namespace Patchwork

namespace Eval

/-- An evaluation that leaves the mod being patched and every record as they
are, though it may add records. -/
def LeavesRecords {Result : Type} (evaluation : Eval Result) : Prop :=
  ∀ before result after, evaluation.Yields before result after →
    after.active = before.active ∧ before.pool.KeptIn after.pool

theorem leavesRecords_pure {Result : Type} (result : Result) :
    (pure result : Eval Result).LeavesRecords := by
  intro before given after hyields
  obtain ⟨-, rfl⟩ := yields_pure.mp hyields
  exact ⟨rfl, Pool.KeptIn.refl _⟩

theorem leavesRecords_transformPayload {transformers : List (Int → Eval Int)}
    (hleaves : ∀ transformer ∈ transformers, ∀ number, (transformer number).LeavesRecords)
    (payload : List Int) :
    (Procedure.transformPayload transformers payload).LeavesRecords := by
  induction payload generalizing transformers with
  | nil =>
    intro before result after hyields
    rw [Procedure.transformPayload.eq_1] at hyields
    obtain ⟨-, rfl⟩ := yields_pure.mp hyields
    exact ⟨rfl, Pool.KeptIn.refl _⟩
  | cons number rest ih =>
    intro before result after hyields
    cases transformers with
    | nil =>
      obtain ⟨-, rfl⟩ := yields_pure.mp hyields
      exact ⟨rfl, Pool.KeptIn.refl _⟩
    | cons transformer others =>
      rw [Procedure.transformPayload] at hyields
      obtain ⟨transformed, middle, hfirst, hrest⟩ := yields_bind.mp hyields
      obtain ⟨more, last, hothers, hresult⟩ := yields_bind.mp hrest
      obtain ⟨-, rfl⟩ := yields_pure.mp hresult
      obtain ⟨hactive, hkept⟩ :=
        hleaves transformer List.mem_cons_self number _ _ _ hfirst
      obtain ⟨hlater, hkeptLater⟩ := ih
        (fun other hother => hleaves other (List.mem_cons_of_mem _ hother)) _ _ _ hothers
      exact ⟨hlater.trans hactive, hkept.trans hkeptLater⟩

end Eval

/-- A call to the store about one record. -/
inductive StoreCall
  | setField (name text : String)
  | forceSetField (name text declared : String)
  | addLink (source : RecordRef) (category : String) (payload : Option (List Int))
      (forced : Bool)
  | editLinks (category : String) (transformers : List (Int → Eval Int))
      (accepts : List Int → Eval Bool)
  | delete

namespace StoreCall

/-- What a call does to a record. -/
def run : StoreCall → RecordRef → Eval Unit
  | .setField name text, target => Eval.onActive (Work.setField target name text)
  | .forceSetField name text declared, target =>
    Eval.onActive (Work.forceSetField target name text declared)
  | .addLink source category payload forced, target =>
    Eval.onActive (Work.addLink target source category payload forced)
  | .editLinks category transformers accepts, target => do
    let _ ← Procedure.editCategory target category transformers accepts
  | .delete, target => Eval.onActive (Work.deleteRecord target)

/-- The transformers and the validator of a call only compute. -/
def OnlyComputes : StoreCall → Prop
  | .editLinks _ transformers accepts =>
    (∀ transformer ∈ transformers, ∀ number, (transformer number).LeavesRecords) ∧
      ∀ payload, (accepts payload).LeavesRecords
  | _ => True

/-- Calls one after the other, each on its record. -/
def runAll (calls : List (RecordRef × StoreCall)) : Eval Unit :=
  calls.forM fun (target, call) => call.run target

end StoreCall

namespace Merge

section

variable {front : List Mod} {kind : String} {views : Group} {created : List String}
variable {before after : World} {mod : Mod} {view : RecordRef}

theorem follows_onActive {work : Work Unit} {dropped : String → Prop}
    (hactive : before.active = some mod)
    (hyields : (Eval.onActive work).Yields before () after)
    (hwork : ∀ bench, work.Yields ⟨before.pool, mod, before.journal, before.marks⟩ () bench →
      Follows front kind views created before.pool mod dropped bench.pool bench.mod) :
    ∃ patched, after.active = some patched ∧
      Follows front kind views created before.pool mod dropped after.pool patched := by
  obtain ⟨found, bench, hfound, hbench, rfl⟩ := Eval.yields_onActive.mp hyields
  rw [hactive] at hfound
  cases hfound
  exact ⟨bench.mod, rfl, hwork bench hbench⟩

theorem follows_leavesRecords {Result : Type} {evaluation : Eval Result} {result : Result}
    (hleaves : evaluation.LeavesRecords)
    (hmirrors : Mirrors front kind views created before.pool mod)
    (hactive : before.active = some mod) (hyields : evaluation.Yields before result after) :
    after.active = some mod ∧
      Follows front kind views created before.pool mod nothing after.pool mod := by
  obtain ⟨hsame, hkept⟩ := hleaves _ _ _ hyields
  exact ⟨hsame.trans hactive, Follows.grow hmirrors hkept⟩

/-- Links rewritten one after the other. -/
theorem follows_editLinks {transformers : List (Int → Eval Int)}
    {accepts : List Int → Eval Bool}
    (htransform : ∀ transformer ∈ transformers, ∀ number,
      (transformer number).LeavesRecords)
    (haccepts : ∀ payload, (accepts payload).LeavesRecords)
    (hmirrors : Mirrors front kind views created before.pool mod)
    (hactive : before.active = some mod) (hview : view ∈ views.records)
    {links : List Link} {count : Nat}
    (hyields : (Procedure.editLinks view transformers accepts links).Yields before count after) :
    ∃ patched, after.active = some patched ∧
      Follows front kind views created before.pool mod nothing after.pool patched := by
  induction links generalizing before mod count with
  | nil =>
    obtain ⟨-, rfl⟩ := Eval.yields_pure.mp hyields
    exact ⟨mod, hactive, Follows.refl hmirrors⟩
  | cons link rest ih =>
    rw [Procedure.editLinks] at hyields
    obtain ⟨verdict, judged, hverdict, hedit⟩ := Eval.yields_bind.mp hyields
    obtain ⟨hstill, hjudged⟩ :=
      follows_leavesRecords (haccepts link.payload) hmirrors hactive hverdict
    cases verdict with
    | false =>
      obtain ⟨patched, hpatched, hfollows⟩ := ih hjudged.mirrors hstill hedit
      exact ⟨patched, hpatched, hjudged.trans_nothing hfollows⟩
    | true =>
      obtain ⟨payload, computed, hpayload, hrelink⟩ := Eval.yields_bind.mp hedit
      obtain ⟨hagain, hcomputed⟩ := follows_leavesRecords
        (Eval.leavesRecords_transformPayload htransform link.payload) hjudged.mirrors hstill
        hpayload
      obtain ⟨_, written, hwrite, hrest⟩ := Eval.yields_bind.mp hrelink
      obtain ⟨linked, hlinked, hwritten⟩ := follows_onActive hagain hwrite
        fun bench => follows_relink hcomputed.mirrors hview
      obtain ⟨edited, last, hlast, hcount⟩ := Eval.yields_bind.mp hrest
      obtain ⟨-, rfl⟩ := Eval.yields_pure.mp hcount
      obtain ⟨patched, hpatched, hfollows⟩ := ih hwritten.mirrors hlinked hlast
      exact ⟨patched, hpatched,
        hjudged.trans_nothing (hcomputed.trans_nothing (hwritten.trans_nothing hfollows))⟩

/-- The identifiers that calls drop: those that the mod introduced and a call
deletes. -/
def droppedBy (created : List String) (pool : Pool) (calls : List (RecordRef × StoreCall))
    (id : String) : Prop :=
  ∃ view, (view, StoreCall.delete) ∈ calls ∧ id = (pool.get view).id ∧ id ∈ created

theorem follows_call {call : StoreCall} (hcomputes : call.OnlyComputes)
    (hmirrors : Mirrors front kind views created before.pool mod)
    (hactive : before.active = some mod) (hview : view ∈ views.records)
    (hyields : (call.run view).Yields before () after) :
    ∃ patched, after.active = some patched ∧
      Follows front kind views created before.pool mod
        (droppedBy created before.pool [(view, call)]) after.pool patched := by
  have hkept : call ≠ .delete → ∀ id,
      nothing id ↔ droppedBy created before.pool [(view, call)] id := by
    intro hother id
    refine ⟨False.elim, ?_⟩
    rintro ⟨target, hmem, -⟩
    rw [List.mem_singleton, Prod.mk.injEq] at hmem
    exact hother hmem.2.symm
  cases call with
  | setField name text =>
    change (Eval.onActive (Work.setField view name text)).Yields before () after
      at hyields
    obtain ⟨patched, hpatched, hfollows⟩ := follows_onActive hactive hyields
      fun bench => follows_setField hmirrors hview
    exact ⟨patched, hpatched, hfollows.congr (hkept (by simp))⟩
  | forceSetField name text declared =>
    change (Eval.onActive (Work.forceSetField view name text declared)).Yields before () after
      at hyields
    obtain ⟨patched, hpatched, hfollows⟩ := follows_onActive hactive hyields
      fun bench => follows_forceSetField hmirrors hview
    exact ⟨patched, hpatched, hfollows.congr (hkept (by simp))⟩
  | addLink source category payload forced =>
    change (Eval.onActive (Work.addLink view source category payload forced)).Yields before () after
      at hyields
    obtain ⟨patched, hpatched, hfollows⟩ := follows_onActive hactive hyields
      fun bench => follows_addLink hmirrors hview
    exact ⟨patched, hpatched, hfollows.congr (hkept (by simp))⟩
  | editLinks category transformers accepts =>
    obtain ⟨count, edited, hcategory, hresult⟩ := Eval.yields_bind.mp hyields
    obtain ⟨-, rfl⟩ := Eval.yields_pure.mp hresult
    obtain ⟨record, _, hrecord, hedit⟩ := Eval.yields_bind.mp hcategory
    obtain ⟨-, rfl⟩ := Eval.yields_record.mp hrecord
    obtain ⟨patched, hpatched, hfollows⟩ :=
      follows_editLinks hcomputes.1 hcomputes.2 hmirrors hactive hview hedit
    exact ⟨patched, hpatched, hfollows.congr (hkept (by simp))⟩
  | delete =>
    change (Eval.onActive (Work.deleteRecord view)).Yields before () after at hyields
    obtain ⟨patched, hpatched, hfollows⟩ := follows_onActive hactive hyields
      fun bench => follows_deleteRecord hmirrors hview
    refine ⟨patched, hpatched, hfollows.congr fun id => ?_⟩
    simp [droppedBy]

/-- Calls one after the other. -/
theorem follows_runAll {calls : List (RecordRef × StoreCall)}
    (htargets : ∀ call ∈ calls, call.1 ∈ views.records)
    (hcomputes : ∀ call ∈ calls, call.2.OnlyComputes)
    (hmirrors : Mirrors front kind views created before.pool mod)
    (hactive : before.active = some mod)
    (hyields : (StoreCall.runAll calls).Yields before () after) :
    ∃ patched, after.active = some patched ∧
      Follows front kind views created before.pool mod
        (droppedBy created before.pool calls) after.pool patched := by
  induction calls generalizing before mod with
  | nil =>
    obtain ⟨-, rfl⟩ := Eval.yields_pure.mp hyields
    refine ⟨mod, hactive, (Follows.refl hmirrors).congr fun id => ?_⟩
    simp [nothing, droppedBy]
  | cons call rest ih =>
    obtain ⟨target, call⟩ := call
    obtain ⟨_, between, hfirst, hrest⟩ := Eval.yields_bind.mp hyields
    obtain ⟨middle, hmiddle, hstep⟩ := follows_call
      (hcomputes (target, call) List.mem_cons_self) hmirrors hactive
      (htargets (target, call) List.mem_cons_self) hfirst
    have hothers : ∀ other ∈ rest, other.1 ∈ views.records := fun other hother =>
      htargets other (List.mem_cons_of_mem _ hother)
    obtain ⟨patched, hpatched, hfollows⟩ := ih hothers
      (fun other hother => hcomputes other (List.mem_cons_of_mem _ hother))
      hstep.mirrors hmiddle hrest
    refine ⟨patched, hpatched, (hstep.trans hfollows).congr fun id => ?_⟩
    -- The views keep their identifiers, so the later calls drop what they would have dropped.
    have hids : ∀ view, (view, StoreCall.delete) ∈ rest →
        (between.pool.get view).id = (before.pool.get view).id := fun view hview =>
      hstep.cards.id view (hmirrors.viewHeld view (hothers _ hview))
    constructor
    · rintro (⟨view, hview, hid⟩ | ⟨view, hview, hid⟩)
      · rw [List.mem_singleton] at hview
        exact ⟨view, hview ▸ List.mem_cons_self, hid⟩
      · rw [hids view hview] at hid
        exact ⟨view, List.mem_cons_of_mem _ hview, hid⟩
    · rintro ⟨view, hview, hid⟩
      obtain heq | hview := List.mem_cons.mp hview
      · exact Or.inl ⟨view, List.mem_singleton.mpr heq, hid⟩
      · rw [← hids view hview] at hid
        exact Or.inr ⟨view, hview, hid⟩

end

/-! ## Merging again -/

/-- Merging gives the views as they are, under the mods they came from, except
for those that are gone. -/
structure Reproduces (outcome : Outcome) (pool : Pool) (views : Group)
    (gone : RecordRef → Prop) : Prop where
  kept : ∀ view ∈ views.members, ¬ gone view.record → ∃ again,
    outcome.entriesOf (pool.get view.record).id = [(view.mod, again)] ∧
      again.Alike (pool.get view.record)
  gone : ∀ view ∈ views.members, gone view.record →
    outcome.entriesOf (pool.get view.record).id = []
  complete : ∀ entry ∈ outcome.merged, ∃ view ∈ views.members,
    (pool.get view.record).id = entry.2.id

/-- After any calls on the merged records of a kind, merging the patched mod in
the place of its loaded copy gives each of these records its name, its fields,
its links and its mod again; gone are only records that the mod introduced and
that were deleted. -/
theorem remerge_reproduces_views {pool filled : Pool} {front : Repository}
    {base active : Mod} {kind : String} {views : Group} {before after : World}
    {calls : List (RecordRef × StoreCall)}
    (hbaseline : Baseline pool front base active)
    (hplace : (mergeAll pool
      (Repository.collect pool kind (front.add base).list)).place pool = (filled, views))
    (hpool : before.pool = filled) (hactive : before.active = some active)
    (htargets : ∀ call ∈ calls, call.1 ∈ views.records)
    (hcomputes : ∀ call ∈ calls, call.2.OnlyComputes)
    (hyields : (StoreCall.runAll calls).Yields before () after) :
    ∃ patched, after.active = some patched ∧
      Reproduces
        (mergeAll after.pool
          (Repository.collect after.pool kind ((front.add base).add patched).list))
        after.pool views
        (fun view => (view, StoreCall.delete) ∈ calls ∧
          (after.pool.get view).id ∈ base.introduced pool) := by
  subst hpool
  rw [Repository.list_add_of_new hbaseline.last] at hplace
  have hstart := hbaseline.mirrors kind hplace
  obtain ⟨patched, hpatched, hfollows⟩ :=
    follows_runAll htargets hcomputes hstart hactive hyields
  have hname : patched.name = base.name := hfollows.name.trans hbaseline.name
  have hdropped : ∀ view ∈ views.records,
      (after.pool.get view).id ∈ patched.deleted ↔
        (view, StoreCall.delete) ∈ calls ∧ (after.pool.get view).id ∈ base.introduced pool := by
    intro view hview
    rw [hfollows.deleted, hbaseline.undeleted,
      hfollows.cards.id view (hstart.viewHeld view hview)]
    constructor
    · rintro (hmem | ⟨target, hcall, hid, hintroduced⟩)
      · cases hmem
      · rw [hstart.view_unique hview (htargets _ hcall) hid]
        exact ⟨hcall, hid ▸ hintroduced⟩
    · rintro ⟨hcall, hintroduced⟩
      exact Or.inr ⟨view, hcall, rfl, hintroduced⟩
  refine ⟨patched, hpatched, ?_⟩
  rw [Repository.list_add_add hbaseline.last hname]
  exact {
    kept := by
      intro view hview hkept
      rw [← hdropped _ (List.mem_map_of_mem hview)] at hkept
      obtain ⟨again, hagain, halike⟩ := hfollows.mirrors.remade view hview hkept
      exact ⟨again, by rw [entriesOf_collect, hagain]; rfl, halike⟩
    gone := by
      intro view hview hgone
      rw [← hdropped _ (List.mem_map_of_mem hview)] at hgone
      obtain ⟨hintroduced, hversion⟩ := hfollows.mirrors.dropped _ hgone
      have hfront : versionsIn front.list kind after.pool (after.pool.get view.record).id = [] := by
        rw [List.eq_nil_iff_forall_not_mem]
        intro version hmem
        obtain ⟨⟨mod, hmod, -, href⟩, -, hid⟩ := mem_versionsIn.mp hmem
        exact hfollows.mirrors.absent _ hintroduced mod hmod _ href hid
      rw [entriesOf_collect, mergedIn?_append_singleton hfollows.mirrors.loadedLast, hversion,
        mergedIn?, hfront]
      rfl
    complete := by
      intro entry hentry
      by_contra habsent
      have hnone := hfollows.mirrors.complete entry.2.id fun view hview heq => by
        obtain ⟨member, hmember, rfl⟩ := List.mem_map.mp hview
        exact habsent ⟨member, hmember, heq⟩
      rw [(creator_of_mem_merged hentry).1] at hnone
      cases hnone }

/-- A sword and a club of the mod in front, and two copies of an axe that the
last mod introduces. -/
def smithyPool : Pool where
  records := #[
    { id := "1", kind := "WEAPON", name := "Sword", isNew := true,
      fields := [(.str "grip", .str "plain")], links := [("part", [("9", [1, 2])])] },
    { id := "2", kind := "WEAPON", name := "Club", isNew := true },
    { id := "3", kind := "WEAPON", name := "Axe", isNew := true },
    { id := "3", kind := "WEAPON", name := "Axe", isNew := true }]

/-- The mod in front. -/
def smithyFront : Repository :=
  ⟨[("base.mod", { name := "base.mod", records := [⟨0⟩, ⟨1⟩] })]⟩

/-- The loaded copy of the last mod. -/
def smithyBase : Mod := { name := "axes.mod", records := [⟨2⟩] }

/-- The copy of the last mod that is patched. -/
def smithyActive : Mod := { name := "axes.mod", records := [⟨3⟩] }

/-- The merged weapons, in the pool. -/
def smithyPlaced : Pool × Group :=
  (mergeAll smithyPool (Repository.collect smithyPool "WEAPON"
    (smithyFront.add smithyBase).list)).place smithyPool

/-- A new grip and a rewritten link for the sword, a link for the club, and the
axe deleted. -/
def smithyCalls : List (RecordRef × StoreCall) := [
  (⟨4⟩, .setField "grip" "leather"),
  (⟨4⟩, .editLinks "part" [pure, fun number => pure (number + 1)] fun _ => pure true),
  (⟨5⟩, .addLink ⟨4⟩ "pair" none false),
  (⟨6⟩, .delete)]

/-- The world in which the calls are made. -/
def smithyWorld : World := { pool := smithyPlaced.1, active := some smithyActive }

/-- The world after them. -/
def smithyAfter : World := ((StoreCall.runAll smithyCalls).run smithyWorld).2

theorem smithy_baseline : Baseline smithyPool smithyFront smithyBase smithyActive where
  last := by decide
  name := rfl
  records := rfl
  undeleted := rfl
  held := by simp [smithyPool, smithyFront, smithyActive, Repository.list, Pool.Holds]
  apart := by decide
  once := by decide
  kinds := by decide
  alone := by decide
  tidy := by decide

theorem remerge_smithyCalls : ∃ patched,
    smithyAfter.active = some patched ∧
      (mergeAll smithyAfter.pool (Repository.collect smithyAfter.pool "WEAPON"
        ((smithyFront.add smithyBase).add patched).list)).entriesOf "3" = [] ∧
      ∃ sword,
        (mergeAll smithyAfter.pool (Repository.collect smithyAfter.pool "WEAPON"
          ((smithyFront.add smithyBase).add patched).list)).entriesOf "1" =
            [("base.mod", sword)] ∧
        sword.name = "Sword" ∧ sword.payload? "part" "9" = some [1, 3] := by
  have hplace : (mergeAll smithyPool (Repository.collect smithyPool "WEAPON"
      (smithyFront.add smithyBase).list)).place smithyPool =
      (smithyPlaced.1, smithyPlaced.2) := rfl
  have htargets : ∀ call ∈ smithyCalls, call.1 ∈ smithyPlaced.2.records := by decide +kernel
  have hcomputes : ∀ call ∈ smithyCalls, call.2.OnlyComputes := by
    simp [smithyCalls, StoreCall.OnlyComputes, Eval.leavesRecords_pure]
  have hyields : (StoreCall.runAll smithyCalls).Yields smithyWorld () smithyAfter :=
    Eval.yields_of_isOk (by decide +kernel)
  obtain ⟨patched, hpatched, hreproduces⟩ :=
    remerge_reproduces_views smithy_baseline hplace rfl rfl htargets hcomputes hyields
  have hswordId : (smithyAfter.pool.get ⟨4⟩).id = "1" := by decide +kernel
  have haxeId : (smithyAfter.pool.get ⟨6⟩).id = "3" := by decide +kernel
  obtain ⟨sword, hsword, halike⟩ := hreproduces.kept ⟨"base.mod", ⟨4⟩⟩ (by decide +kernel)
    (by simp [smithyCalls])
  have haxe := hreproduces.gone ⟨"axes.mod", ⟨6⟩⟩ (by decide +kernel)
    ⟨by simp [smithyCalls], by decide +kernel⟩
  rw [hswordId] at hsword
  rw [haxeId] at haxe
  have hname : (smithyAfter.pool.get ⟨4⟩).name = "Sword" := by decide +kernel
  have hpart : (smithyAfter.pool.get ⟨4⟩).payload? "part" "9" = some [1, 3] := by
    decide +kernel
  exact ⟨patched, hpatched, haxe, sword, hsword, halike.name.trans hname,
    (halike.links "part" "9").trans hpart⟩

end Merge

end Patchwork
