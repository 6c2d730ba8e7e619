import Patchwork.Proofs.Provenance.Deeds

/-!
# What a course means for the header

The header at the end of a course is the one at its start, told of every deed in order.
A record that has come into the mod is new or overrides a target of one of the
procedures, and every source of a link is a source of one of them.
-/

namespace Patchwork

open Eval

/-! ## Headers -/

/-- Two mods with the same name and header. -/
structure Mod.SameHeader (mod other : Mod) : Prop where
  name : other.name = mod.name
  dependencies : other.dependencies = mod.dependencies
  references : other.references = mod.references

namespace Mod

theorem SameHeader.trans {first second third : Mod} (hfirst : first.SameHeader second)
    (hsecond : second.SameHeader third) : first.SameHeader third :=
  ⟨hsecond.name.trans hfirst.name, hsecond.dependencies.trans hfirst.dependencies,
    hsecond.references.trans hfirst.references⟩

theorem SameHeader.addHeader {mod other : Mod} (hsame : mod.SameHeader other)
    (references dependencies : List Plain) :
    ((mod.addReferences references).addDependencies dependencies).SameHeader
      ((other.addReferences references).addDependencies dependencies) where
  name := hsame.name
  dependencies := by
    simp only [addDependencies, addReferences, hsame.name, hsame.dependencies]
  references := by
    simp only [addDependencies, addReferences, hsame.name, hsame.references]

theorem headerEntries_congr {mod other : Mod} (hname : other.name = mod.name) (group : Group) :
    Procedure.headerEntries group other = Procedure.headerEntries group mod := by
  rw [Procedure.headerEntries, Procedure.headerEntries, hname]

theorem SameHeader.credit {mod other : Mod} (hsame : mod.SameHeader other) (deed : Deed) :
    (mod.credit deed).SameHeader (other.credit deed) := by
  cases deed with
  | linked target source => exact hsame
  | applied procedure targets sources =>
    simp only [Mod.credit, headerEntries_congr hsame.name]
    exact hsame.addHeader _ _

theorem SameHeader.credited {mod other : Mod} (hsame : mod.SameHeader other)
    (deeds : List Deed) : (mod.credited deeds).SameHeader (other.credited deeds) := by
  induction deeds generalizing mod other with
  | nil => exact hsame
  | cons deed rest ih => exact ih (hsame.credit deed)

theorem name_credit (mod : Mod) (deed : Deed) : (mod.credit deed).name = mod.name := by
  cases deed <;> rfl

theorem credited_cons (mod : Mod) (deed : Deed) (rest : List Deed) :
    mod.credited (deed :: rest) = (mod.credit deed).credited rest :=
  List.foldl_cons ..

theorem name_credited (mod : Mod) (deeds : List Deed) : (mod.credited deeds).name = mod.name := by
  induction deeds generalizing mod with
  | nil => rfl
  | cons deed rest ih => rw [credited_cons, ih, name_credit]

theorem credited_append (mod : Mod) (first second : List Deed) :
    mod.credited (first ++ second) = (mod.credited first).credited second :=
  List.foldl_append

end Mod

/-! ## Accounts of a course -/

/-- A record is new, or it overrides one of the targets. -/
def Pool.Accounts (pool : Pool) (targets : List RecordRef) (own : RecordRef) : Prop :=
  pool.Holds own ∧ ((pool.get own).isNew = true ∨
    ∃ target ∈ targets, pool.Holds target ∧ (pool.get own).id = (pool.get target).id)

theorem Pool.Accounts.mono {pool later : Pool} {targets others : List RecordRef}
    {own : RecordRef} (haccounts : pool.Accounts targets own) (hretains : pool.Retains later)
    (htargets : targets ⊆ others) : later.Accounts others own := by
  obtain ⟨hheld, hcases⟩ := haccounts
  refine ⟨hretains.holds own hheld, ?_⟩
  rw [hretains.isNew own hheld, hretains.id own hheld]
  rcases hcases with hnew | ⟨target, htarget, htargetHeld, hid⟩
  · exact Or.inl hnew
  · refine Or.inr ⟨target, htargets htarget, hretains.holds target htargetHeld, ?_⟩
    rw [hretains.id target htargetHeld, hid]

/-- What deeds say about the way from one world to another: they account for the header,
for every record that has come into the mod and for the source of every link. -/
structure Accounted (operands : Operands) (deeds : List Deed) (before after : World) : Prop where
  onward : before.Onward after
  active : ∀ mod, before.active = some mod →
    ∃ patched, after.active = some patched ∧ (mod.credited deeds).SameHeader patched ∧
      ∀ own ∈ patched.records, own ∈ mod.records ∨
        after.pool.Accounts
          (operands.targets ++ (deeds.flatMap Deed.targets).map Member.record) own
  links : ∀ target source, .linked target source ∈ deeds →
    source ∈ operands.sources ++ (deeds.flatMap Deed.sources).map Member.record

namespace Accounted

variable {operands : Operands} {before between worked after : World}
  {first second deeds : List Deed}

theorem trans (hfirst : Accounted operands first before between)
    (hsecond : Accounted operands second between after) :
    Accounted operands (first ++ second) before after where
  onward := hfirst.onward.trans hsecond.onward
  active := by
    intro mod hmod
    obtain ⟨later, hlater, hheader, hrecords⟩ := hfirst.active mod hmod
    obtain ⟨patched, hpatched, hlast, hothers⟩ := hsecond.active later hlater
    refine ⟨patched, hpatched, ?_, fun own hown => ?_⟩
    · rw [Mod.credited_append]
      exact (hheader.credited second).trans hlast
    · rw [List.flatMap_append, List.map_append]
      rcases hothers own hown with hown | haccounts
      · refine (hrecords own hown).imp_right fun haccounts => ?_
        refine haccounts.mono hsecond.onward.retains (List.append_subset.mpr ⟨?_, ?_⟩)
        · exact List.subset_append_left _ _
        · exact List.Subset.trans (List.subset_append_left _ _) (List.subset_append_right _ _)
      · refine Or.inr (haccounts.mono (Pool.Retains.refl _) (List.append_subset.mpr ⟨?_, ?_⟩))
        · exact List.subset_append_left _ _
        · exact List.Subset.trans (List.subset_append_right _ _) (List.subset_append_right _ _)
  links := by
    intro target source hlinked
    rw [List.flatMap_append, List.map_append]
    rcases List.mem_append.mp hlinked with hlinked | hlinked
    · have hsource := hfirst.links target source hlinked
      simp only [List.mem_append] at hsource ⊢
      exact hsource.imp_right Or.inl
    · have hsource := hsecond.links target source hlinked
      simp only [List.mem_append] at hsource ⊢
      exact hsource.imp_right Or.inr

theorem of_quiet (hquiet : before.Quiet after) : Accounted operands [] before after where
  onward := hquiet.onward
  active := by
    intro mod hmod
    obtain ⟨later, hlater, hdependencies, hreferences, hrecords⟩ := hquiet.active mod hmod
    obtain ⟨other, hother, hkept⟩ := hquiet.onward.active mod hmod
    obtain rfl : later = other := Option.some.inj (hlater.symm.trans hother)
    refine ⟨later, hlater, ⟨hkept.name, hdependencies, hreferences⟩, fun own hown => ?_⟩
    exact (hrecords own hown).imp_right fun hnew => ⟨hnew.1, Or.inl hnew.2⟩
  links := fun _ _ hlinked => nomatch hlinked

/-- A write to one of the targets is accounted for by that target. -/
theorem of_writes {work : Work Unit} {target : RecordRef} (hwork : work.WritesTo target)
    (htarget : target ∈ operands.targets) (hheld : before.pool.Holds target)
    (hyields : (onActive work).Yields before () after)
    (hlinks : ∀ other source, .linked other source ∈ deeds → source ∈ operands.sources)
    (hcredited : ∀ mod : Mod, mod.credited deeds = mod) :
    Accounted operands deeds before after := by
  obtain ⟨mod, bench, hmod, hbench, rfl⟩ := yields_onActive.mp hyields
  have hwrites := hwork _ _ _ hbench
  constructor
  · refine ⟨hwrites.retains, fun other hother => ⟨bench.mod, rfl, ?_⟩⟩
    obtain rfl := Option.some.inj (hmod.symm.trans hother)
    exact hwrites.onward
  · intro other hother
    obtain rfl := Option.some.inj (hmod.symm.trans hother)
    refine ⟨bench.mod, rfl, ?_, fun own hown => ?_⟩
    · rw [hcredited]
      exact ⟨hwrites.onward.name, hwrites.dependencies, hwrites.references⟩
    · refine (hwrites.records own hown).imp_right fun hoverride => ⟨hoverride.1, Or.inr ?_⟩
      exact ⟨target, List.mem_append_left _ htarget, hwrites.retains.holds target hheld,
        hoverride.2.trans (hwrites.retains.id target hheld).symm⟩
  · intro other source hlinked
    exact List.mem_append_left _ (hlinks other source hlinked)

end Accounted

namespace Procedure

theorem yields_conclude {procedure : Procedure} {targets : Group} {sources : Option Group}
    {mod patched : Mod} {applied : Nat} {worked after : World}
    (hyields : (procedure.conclude targets sources mod applied).Yields worked () after)
    (hpatched : worked.active = some patched) :
    after.pool = worked.pool ∧ after.active = some
      ((patched.addReferences (sources.elim [] (headerEntries · mod))).addDependencies
        (headerEntries targets mod)) := by
  have hend : ∀ {between : World} {later : Mod}, between.active = some later →
      (do
        onActive (Work.addDependencies (headerEntries targets mod))
        note .debug .procedures (procedure.name ++ " applied " ++ integerText applied ++
          " time(s)") : Eval Unit).Yields between () after →
      after.pool = between.pool ∧
        after.active = some (later.addDependencies (headerEntries targets mod)) := by
    intro between later hlater hrest
    obtain ⟨_, added, hadd, hnote⟩ := yields_bind.mp hrest
    obtain ⟨other, bench, hother, hbench, rfl⟩ := yields_onActive.mp hadd
    obtain rfl := Option.some.inj (hlater.symm.trans hother)
    obtain rfl := Work.yields_modify.mp hbench
    cases hnote
    exact ⟨rfl, rfl⟩
  unfold conclude at hyields
  cases sources with
  | none => exact hend hpatched hyields
  | some group =>
    obtain ⟨_, between, hadd, hrest⟩ := yields_bind.mp hyields
    obtain ⟨other, bench, hother, hbench, hbetween⟩ := yields_onActive.mp hadd
    obtain rfl := Option.some.inj (hpatched.symm.trans hother)
    obtain rfl := Work.yields_modify.mp hbench
    have hadded : between.active = some (patched.addReferences (headerEntries group mod)) :=
      hbetween ▸ rfl
    have hpool : between.pool = worked.pool := hbetween ▸ rfl
    rw [← hpool]
    exact hend hadded hrest

end Procedure

/-- A procedure that is completed accounts for everything that was done to its operands. -/
theorem Accounted.conclude {operands : Operands} {procedure : Procedure} {targets : Group}
    {sources : Option Group} {mod : Mod} {applied : Nat} {before worked after : World}
    {deeds : List Deed}
    (haccounted : Accounted ⟨targets.records, sources.elim [] Group.records⟩ deeds before worked)
    (hactive : ∃ present, before.active = some present ∧ present.name = mod.name)
    (hend : (procedure.conclude targets sources mod applied).Yields worked () after) :
    Accounted operands (deeds ++ [.applied procedure targets sources]) before after := by
  obtain ⟨present, hpresent, hname⟩ := hactive
  obtain ⟨patched, hpatched, hheader, hrecords⟩ := haccounted.active present hpresent
  obtain ⟨hpool, hlast⟩ := Procedure.yields_conclude hend hpatched
  have hlater : worked.Onward after := by
    refine ⟨hpool ▸ Pool.Retains.refl _, fun other hother => ⟨_, hlast, ?_⟩⟩
    obtain rfl := Option.some.inj (hpatched.symm.trans hother)
    exact ⟨rfl, List.Subset.refl _, fun _ hown _ => Or.inl hown⟩
  have htargets : (⟨targets.records, sources.elim [] Group.records⟩ : Operands).targets ++
        (deeds.flatMap Deed.targets).map Member.record ⊆
      operands.targets ++
        ((deeds ++ [Deed.applied procedure targets sources]).flatMap Deed.targets).map
          Member.record := by
    simp only [List.flatMap_append, List.flatMap_cons, List.flatMap_nil, List.append_nil,
      List.map_append, Deed.targets, Group.records]
    refine List.append_subset.mpr ⟨?_, ?_⟩
    · exact fun _ hmem => List.mem_append_right _ (List.mem_append_right _ hmem)
    · exact fun _ hmem => List.mem_append_right _ (List.mem_append_left _ hmem)
  constructor
  · exact haccounted.onward.trans hlater
  · intro other hother
    obtain rfl := Option.some.inj (hpresent.symm.trans hother)
    refine ⟨_, hlast, ?_, fun own hown => ?_⟩
    · rw [Mod.credited_append]
      change ((present.credited deeds).credit (.applied procedure targets sources)).SameHeader _
      have hcredited : (present.credited deeds).name = mod.name :=
        (Mod.name_credited present deeds).trans hname
      simp only [Mod.credit, Mod.headerEntries_congr hcredited]
      exact hheader.addHeader _ _
    · refine (hrecords own hown).imp_right fun haccounts => ?_
      exact haccounts.mono hlater.retains htargets
  · intro target source hlinked
    simp only [List.flatMap_append, List.flatMap_cons, List.flatMap_nil, List.append_nil,
      List.map_append, List.mem_append]
    rcases List.mem_append.mp hlinked with hlinked | hlinked
    · have hsource := haccounted.links target source hlinked
      rcases List.mem_append.mp hsource with hsource | hsource
      · refine Or.inr (Or.inr ?_)
        cases sources with
        | none => cases hsource
        | some group => exact hsource
      · exact Or.inr (Or.inl hsource)
    · cases List.mem_singleton.mp hlinked

/-- The deeds of a course account for the header, for the records that have come into the
mod and for the sources of all links. -/
theorem Course.accounted {Result : Type} {operands : Operands} {evaluation : Eval Result}
    {before after : World} {deeds : List Deed} {result : Result}
    (hcourse : Course operands evaluation before deeds result after) :
    Accounted operands deeds before after := by
  induction hcourse with
  | quiet _ hquiet => exact Accounted.of_quiet hquiet
  | bind _ _ ihfirst ihnext => exact ihfirst.trans ihnext
  | inside _ _ ih => exact ih
  | edit hwork htarget hheld hyields =>
    exact Accounted.of_writes hwork.writesTo htarget hheld hyields
      (fun _ _ hlinked => nomatch hlinked) fun _ => rfl
  | link htarget hsource hheld hyields =>
    refine Accounted.of_writes (Work.writesTo_addLink _ _ _ _) htarget hheld hyields ?_
      fun _ => rfl
    intro other source hlinked
    cases List.mem_singleton.mp hlinked
    exact hsource
  | applyOne _ hactive _ hend ih => exact ih.conclude ⟨_, hactive, rfl⟩ hend
  | applyTwo _ hactive _ _ _ hend ihsources ihwork =>
    rw [List.append_assoc]
    obtain ⟨later, hlater, hheader, -⟩ := ihsources.active _ hactive
    refine ihsources.trans (ihwork.conclude ⟨later, hlater, ?_⟩ hend)
    exact hheader.name.trans (Mod.name_credited _ _)

end Patchwork
