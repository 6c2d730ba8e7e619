import Mathlib.Data.List.Perm.Basic
import Patchwork.Proofs.Evaluation.Yields
import Patchwork.Proofs.Results
import Patchwork.Proofs.Runs.Bindings

/-!
# Extractions keep every record

An extraction asks its condition about every member of a group, in order, and moves the
members it accepts into another group.  If the condition fails for one of them, nothing
is moved.  So however often the groups that come from one group are split again, together
they hold each of its members exactly as often as it did.
-/

namespace Patchwork

open Agree.Computations (run_bind)
open scoped List

/-! ## Verdicts -/

/-- The verdicts of a condition on some members, in order. -/
def verdictsOn (condition : RecordRef → Eval Bool) (members : List Member) : Eval (List Bool) :=
  members.mapM fun member => condition member.record

/-- The members on which the verdict is `verdict`, in order. -/
def picked (verdict : Bool) (members : List Member) (verdicts : List Bool) : List Member :=
  ((members.zip verdicts).filter fun entry => entry.2 == verdict).map Prod.fst

/-- The members are those accepted and those rejected. -/
theorem perm_picked {members : List Member} {verdicts : List Bool}
    (hlength : verdicts.length = members.length) :
    (picked true members verdicts ++ picked false members verdicts).Perm members := by
  have hrejected : (members.zip verdicts).filter (fun entry => entry.2 == false) =
      (members.zip verdicts).filter fun entry => !(entry.2 == true) :=
    List.filter_congr fun entry _ => by cases entry.2 <;> rfl
  have hparts := (List.filter_append_perm (fun entry : Member × Bool => entry.2 == true)
    (members.zip verdicts)).map Prod.fst
  rw [List.map_append, List.map_fst_zip (Nat.le_of_eq hlength.symm)] at hparts
  rw [picked, picked, hrejected]
  exact hparts

section

variable {condition : RecordRef → Eval Bool}

theorem verdictsOn_cons (member : Member) (rest : List Member) :
    verdictsOn condition (member :: rest) = do
      let accepted ← condition member.record
      let verdicts ← verdictsOn condition rest
      return accepted :: verdicts :=
  List.mapM_cons

theorem length_verdictsOn {members : List Member} {verdicts : List Bool} {before after : World}
    (hyields : (verdictsOn condition members).Yields before verdicts after) :
    verdicts.length = members.length := by
  induction members generalizing verdicts before with
  | nil =>
    obtain ⟨rfl, -⟩ := Eval.yields_pure.mp hyields
    rfl
  | cons member rest ih =>
    rw [verdictsOn_cons] at hyields
    obtain ⟨accepted, between, -, hrest⟩ := Eval.yields_bind.mp hyields
    obtain ⟨others, last, hothers, hpure⟩ := Eval.yields_bind.mp hrest
    obtain ⟨rfl, rfl⟩ := Eval.yields_pure.mp hpure
    exact congrArg (· + 1) (ih hothers)

/-- Splitting members is asking about all of them and then picking. -/
theorem splitMembers_eq (members : List Member) :
    splitMembers condition members = do
      let verdicts ← verdictsOn condition members
      return (picked false members verdicts, picked true members verdicts) := by
  induction members with
  | nil => rfl
  | cons member rest ih =>
    rw [splitMembers, ih, verdictsOn_cons]
    simp only [bind_assoc, pure_bind]
    refine congrArg _ (funext fun accepted => congrArg _ (funext fun verdicts => ?_))
    cases accepted <;> rfl

end

/-! ## One line -/

/-- A group has been split between its name and a target, which holds the members that
were accepted.  Nothing else is bound differently. -/
structure Splits (before : Environment) (target : Target) (source : String) (group : Group)
    (verdicts : List Bool) (after : Environment) : Prop where
  judged : verdicts.length = group.members.length
  taken : after.groupAt? target.binding = some ⟨picked true group.members verdicts⟩
  kept : target.binding ≠ .definition source →
    after.groupAt? (.definition source) = some ⟨picked false group.members verdicts⟩
  others : before.SameBut [.definition source, target.binding] after

/-- The verdicts of the condition of an extraction on the members of a group. -/
def Patcher.verdicts (patcher : Patcher) (condition : Node) (group : Group) :
    Except Fault (List Bool) :=
  ((verdictsOn (condition.holds patcher.setting "extraction condition") group.members).run
    patcher.world).1

section

variable {patcher : Patcher} {source : String} {group : Group}

theorem Patcher.length_of_verdicts {condition : Node} {verdicts : List Bool}
    (hverdicts : patcher.verdicts condition group = .ok verdicts) :
    verdicts.length = group.members.length := by
  have hyields : (verdictsOn (condition.holds patcher.setting "extraction condition")
      group.members).Yields patcher.world verdicts _ := Prod.ext hverdicts rfl
  exact length_verdictsOn hyields

theorem run_split (hgroup : patcher.environment.group source = .ok group)
    (condition : Node) :
    ∃ world, (Run.evaluate fun setting => do
        let source ← Eval.settle (setting.environment.group source)
        let (kept, taken) ←
          splitMembers (condition.holds setting "extraction condition") source.members
        return (source, kept, taken)).run patcher =
      ((patcher.verdicts condition group).map fun verdicts =>
        (group, picked false group.members verdicts, picked true group.members verdicts),
        { patcher with world := world }) := by
  rw [Run.run_evaluate]
  dsimp only
  rw [show Eval.settle (patcher.setting.environment.group source) = pure group from
    congrArg Eval.settle hgroup, pure_bind, splitMembers_eq]
  rw [Eval.run_bind, Eval.run_bind, Patcher.verdicts]
  generalize (verdictsOn _ group.members).run patcher.world = judged
  rcases judged with ⟨fault | verdicts, world⟩ <;> exact ⟨world, rfl⟩

/-- Taking records out of a group binds its name to those that stay, unless the condition
fails for one of them. -/
theorem run_partition_of_group (hgroup : patcher.environment.group source = .ok group)
    (condition : Node) :
    ∃ after, (partition source fun setting =>
        condition.holds setting "extraction condition").run patcher =
      ((patcher.verdicts condition group).map fun verdicts =>
        (⟨picked false group.members verdicts⟩, ⟨picked true group.members verdicts⟩), after) ∧
      after.environment =
        match patcher.verdicts condition group with
        | .error _ => patcher.environment
        | .ok verdicts =>
          patcher.environment.define source (.group ⟨picked false group.members verdicts⟩) := by
  obtain ⟨world, hsplit⟩ := run_split hgroup condition
  rw [partition, run_bind, hsplit]
  cases patcher.verdicts condition group with
  | error fault => exact ⟨_, rfl, rfl⟩
  | ok verdicts => exact ⟨_, rfl, rfl⟩

/-- An extraction splits its group if the condition has a verdict on every member, and
otherwise fails as the condition does and binds nothing. -/
theorem run_extract (hgroup : patcher.environment.group source = .ok group) (target : Target)
    (condition : Node) :
    match patcher.verdicts condition group with
    | .error fault =>
      ∃ after, (Statement.extract target source condition).execute.run patcher =
          (.error fault, after) ∧ after.environment = patcher.environment
    | .ok verdicts =>
      ∃ after, (Statement.extract target source condition).execute.run patcher =
          (.ok (), after) ∧
        Splits patcher.environment target source group verdicts after.environment := by
  obtain ⟨between, hpartition, hbetween⟩ := run_partition_of_group hgroup condition
  have hbinds := (Statement.extract target source condition).bindsOnly patcher
  rw [Statement.execute, run_bind, hpartition] at hbinds ⊢
  cases hverdicts : patcher.verdicts condition group with
  | error fault =>
    rw [hverdicts] at hbetween
    exact ⟨between, rfl, hbetween⟩
  | ok verdicts =>
    rw [hverdicts] at hbinds hbetween
    obtain ⟨after, hassigned, htaken⟩ :=
      run_assign_group target ⟨picked true group.members verdicts⟩ between
    have hassign := bindsOnly_assign target (.group ⟨picked true group.members verdicts⟩) between
    dsimp only [Except.map] at hbinds ⊢
    rw [hassigned] at hbinds hassign ⊢
    refine ⟨after, rfl, Patcher.length_of_verdicts hverdicts, htaken, fun hother => ?_, hbinds⟩
    rw [hassign.groupAt?_eq fun hmem => hother (List.mem_singleton.mp hmem).symm, hbetween]
    simp only [Environment.groupAt?, Environment.lookup?_define_self]

end

/-! ## Any number of lines -/

/-- The members of the group that something is bound to. -/
def Environment.membersAt (environment : Environment) (binding : Binding) : List Member :=
  ((environment.groupAt? binding).map Group.members).getD []

/-- A patcher reached from another one by extractions, with everything that holds a part of
the group that was defined as `name`.  Each line takes from one of these and either fails
or fills a new one. -/
inductive Extracted (start : Patcher) (name : String) : List Binding → Patcher → Prop
  | start : Extracted start name [.definition name] start
  | split {family : List Binding} {patcher after : Patcher} {line : String} {target : Target}
      {source : String} {condition : Node} (hbefore : Extracted start name family patcher)
      (hread : Statement.ofLine patcher.names line = .ok (.extract target source condition))
      (hsource : .definition source ∈ family) (hnew : target.binding ∉ family)
      (hran : (executeLine line).run patcher = (.ok (), after)) :
      Extracted start name (target.binding :: family) after
  | failed {family : List Binding} {patcher after : Patcher} {line : String} {target : Target}
      {source : String} {condition : Node} {fault : Fault}
      (hbefore : Extracted start name family patcher)
      (hread : Statement.ofLine patcher.names line = .ok (.extract target source condition))
      (hran : (executeLine line).run patcher = (.error fault, after)) :
      Extracted start name family after

/-- Everything that holds a part of a group is bound to a group, and these have the members
of the whole between them. -/
structure Environment.Shares (environment : Environment) (family : List Binding)
    (members : List Member) : Prop where
  distinct : family.Nodup
  bound : ∀ binding ∈ family, ∃ group, environment.groupAt? binding = some group
  perm : (family.flatMap environment.membersAt).Perm members

namespace Environment

variable {before after : Environment} {family : List Binding} {members : List Member}
variable {target : Target} {source : String} {group : Group} {verdicts : List Bool}

theorem group_of_groupAt? (hgroup : before.groupAt? (.definition source) = some group) :
    before.group source = .ok group := by
  rw [groupAt?] at hgroup
  rw [Environment.group]
  split at hgroup
  · rename_i hlookup
    rw [hlookup, Option.some.inj hgroup]
  · cases hgroup

theorem membersAt_of_groupAt? {binding : Binding}
    (hgroup : before.groupAt? binding = some group) : before.membersAt binding = group.members := by
  rw [membersAt, hgroup]
  rfl

/-- The members of one group of a family are spread over two, and those of the others stay
where they are. -/
theorem Shares.split (hshares : before.Shares family members)
    (hsource : .definition source ∈ family) (hnew : target.binding ∉ family)
    (hgroup : before.groupAt? (.definition source) = some group)
    (hsplits : Splits before target source group verdicts after) :
    after.Shares (target.binding :: family) members := by
  have hother : target.binding ≠ .definition source := fun hsame => hnew (hsame ▸ hsource)
  have hkept := hsplits.kept hother
  have hsame : ∀ binding ∈ family, binding ≠ .definition source →
      after.groupAt? binding = before.groupAt? binding := by
    intro binding hmem hne
    refine hsplits.others.groupAt?_eq ?_
    simp only [List.mem_cons, List.not_mem_nil, or_false, not_or]
    exact ⟨hne, fun htarget => hnew (htarget ▸ hmem)⟩
  refine ⟨List.nodup_cons.mpr ⟨hnew, hshares.distinct⟩, ?_, ?_⟩
  · refine List.forall_mem_cons.mpr ⟨⟨_, hsplits.taken⟩, fun binding hmem => ?_⟩
    by_cases hbinding : binding = .definition source
    · exact ⟨_, hbinding ▸ hkept⟩
    · rw [hsame binding hmem hbinding]
      exact hshares.bound binding hmem
  · -- The source is moved to the front, next to the target, and the two make up its group.
    have hfamily := List.perm_cons_erase hsource
    have hrest : (family.erase (.definition source)).flatMap after.membersAt =
        (family.erase (.definition source)).flatMap before.membersAt := by
      refine List.flatMap_congr fun binding hmem => ?_
      obtain ⟨hne, hmem⟩ := hshares.distinct.mem_erase_iff.mp hmem
      rw [membersAt, membersAt, hsame binding hmem hne]
    calc (target.binding :: family).flatMap after.membersAt
        = picked true group.members verdicts ++ family.flatMap after.membersAt := by
          rw [List.flatMap_cons, membersAt_of_groupAt? hsplits.taken]
      _ ~ picked true group.members verdicts ++ (picked false group.members verdicts ++
            (family.erase (.definition source)).flatMap before.membersAt) := by
          refine List.Perm.append_left _ ((hfamily.flatMap_right _).trans ?_)
          rw [List.flatMap_cons, membersAt_of_groupAt? hkept, hrest]
      _ ~ group.members ++ (family.erase (.definition source)).flatMap before.membersAt := by
          rw [← List.append_assoc]
          exact (perm_picked hsplits.judged).append_right _
      _ ~ family.flatMap before.membersAt := by
          rw [← membersAt_of_groupAt? hgroup, ← List.flatMap_cons]
          exact (hfamily.flatMap_right _).symm
      _ ~ members := hshares.perm

end Environment

section

variable {start after : Patcher} {name : String} {group : Group} {family : List Binding}

theorem Extracted.shares (hgroup : start.environment.group name = .ok group)
    (hextracted : Extracted start name family after) :
    after.environment.Shares family group.members := by
  induction hextracted with
  | start =>
    have hstart : start.environment.groupAt? (.definition name) = some group := by
      rw [Environment.groupAt?, Environment.lookup?_of_group hgroup]
    refine ⟨List.pairwise_singleton _ _, fun binding hmem => ?_, ?_⟩
    · rw [List.mem_singleton.mp hmem]
      exact ⟨group, hstart⟩
    · rw [List.flatMap_singleton, Environment.membersAt_of_groupAt? hstart]
  | @split family patcher after line target source condition _ hread hsource hnew hran ih =>
    obtain ⟨part, hpart⟩ := ih.bound _ hsource
    have hextract := run_extract (Environment.group_of_groupAt? hpart) target condition
    rw [run_executeLine_of_read hread] at hran
    rw [hran] at hextract
    cases hverdicts : patcher.verdicts condition part with
    | error fault =>
      rw [hverdicts] at hextract
      obtain ⟨_, hfailed, -⟩ := hextract
      cases hfailed
    | ok verdicts =>
      rw [hverdicts] at hextract
      obtain ⟨_, hsame, hsplits⟩ := hextract
      cases hsame
      exact ih.split hsource hnew hpart hsplits
  | @failed family patcher after line target source condition fault _ hread hran ih =>
    have hbinds := (Statement.extract target source condition).bindsOnly patcher
    rw [← run_executeLine_of_read hread, hran] at hbinds
    rw [show after.environment = patcher.environment from hbinds]
    exact ih

end

/-- An extraction splits its group between the source and the target, or fails as its
condition does and binds nothing.  Lines that extract from a group, from what has been
extracted from it and so on, each into something new, lose no member and repeat none:
every record with its mod stands in the groups that come from the first one as often as
it stood in that group. -/
theorem extraction_conserves :
    (∀ (patcher : Patcher) (line source : String) (target : Target) (condition : Node)
        (group : Group),
      Statement.ofLine patcher.names line = .ok (.extract target source condition) →
      patcher.environment.group source = .ok group →
      match patcher.verdicts condition group with
      | .error fault =>
        ∃ after, (executeLine line).run patcher = (.error fault, after) ∧
          after.environment = patcher.environment
      | .ok verdicts =>
        ∃ after, (executeLine line).run patcher = (.ok (), after) ∧
          Splits patcher.environment target source group verdicts after.environment) ∧
    ∀ (start after : Patcher) (name : String) (group : Group) (family : List Binding),
      start.environment.group name = .ok group → Extracted start name family after →
      after.environment.Shares family group.members := by
  refine ⟨fun patcher line source target condition group hread hgroup => ?_,
    fun start after name group family hgroup hextracted => hextracted.shares hgroup⟩
  rw [run_executeLine_of_read hread]
  exact run_extract hgroup target condition

/-- What a line that is an extraction fills and takes from, and the verdicts of its
condition on the members of a group. -/
def Patcher.extraction? (patcher : Patcher) (group : Group) (line : String) :
    Option (Binding × String × Option (List Bool)) :=
  match Statement.ofLine patcher.names line with
  | .ok (.extract target source condition) =>
    some (target.binding, source, (patcher.verdicts condition group).toOption)
  | _ => none

theorem Patcher.exists_of_extraction? {patcher : Patcher} {group : Group} {line source : String}
    {binding : Binding} {verdicts : Option (List Bool)}
    (hline : patcher.extraction? group line = some (binding, source, verdicts)) :
    ∃ target condition,
      Statement.ofLine patcher.names line = .ok (.extract target source condition) ∧
      target.binding = binding ∧ (patcher.verdicts condition group).toOption = verdicts := by
  unfold extraction? at hline
  split at hline
  · rename_i target _ condition hread
    cases hline
    exact ⟨target, condition, hread, rfl, rfl⟩
  · cases hline

/-- The patcher that a line leaves, whether it fails or not. -/
def Patcher.past (patcher : Patcher) (line : String) : Patcher :=
  ((executeLine line).run patcher).2

/-- A line whose verdicts are known splits a group of the family or leaves it as it is. -/
theorem Extracted.line {start patcher : Patcher} {name line source : String}
    {family : List Binding} {group : Group} {binding : Binding} {verdicts : Option (List Bool)}
    (hbefore : Extracted start name family patcher) (hsource : .definition source ∈ family)
    (hnew : binding ∉ family) (hgroup : patcher.environment.group source = .ok group)
    (hline : patcher.extraction? group line = some (binding, source, verdicts)) :
    Extracted start name (if verdicts.isSome then binding :: family else family)
      (patcher.past line) := by
  obtain ⟨target, condition, hread, rfl, rfl⟩ := Patcher.exists_of_extraction? hline
  have hextract := run_extract hgroup target condition
  rw [← run_executeLine_of_read hread] at hextract
  rw [Patcher.past]
  cases hverdicts : patcher.verdicts condition group with
  | error fault =>
    rw [hverdicts] at hextract
    obtain ⟨after, hran, -⟩ := hextract
    rw [hran]
    exact .failed hbefore hread hran
  | ok verdicts =>
    rw [hverdicts] at hextract
    obtain ⟨after, hran, -⟩ := hextract
    rw [hran]
    exact .split hbefore hread hsource hnew hran

/-- Two weapons of one mod and one of another. -/
def rack : Group := ⟨[⟨"base", ⟨0⟩⟩, ⟨"base", ⟨1⟩⟩, ⟨"extra", ⟨2⟩⟩]⟩

/-- The weapons are defined as one group.  Two of them have a damage, and one of these a
weight. -/
def racks : Patcher where
  environment := { definitions := [("weapons", .group rack)] }
  world := { pool := (Mod.create {} "base"
    [{ id := "1-base", kind := "WEAPON", fields := [(.str "damage", .int 5)] },
      { id := "2-base", kind := "WEAPON" },
      { id := "3-extra", kind := "WEAPON",
        fields := [(.str "damage", .int 7), (.str "weight", .int 2)] }] [] []).1 }

theorem racks_extraction_conserves :
    let sharp := "sharp <<< (weapons | FieldExist(\"damage\"))"
    -- This line fails, since the weapon that is left has no weight.
    let missing := "heavy <<< (weapons | (GetField(\"weight\") > 1))"
    let heavy := "heavy <<< (sharp | FieldExist(\"weight\"))"
    (∃ target after, (executeLine sharp).run racks = (.ok (), after) ∧
      Splits racks.environment target "weapons" rack [true, false, true] after.environment) ∧
    (((racks.past sharp).past missing).past heavy).environment.Shares
      [.definition "heavy", .definition "sharp", .definition "weapons"] rack.members := by
  intro sharp missing heavy
  have hsharp : racks.extraction? rack sharp =
      some (.definition "sharp", "weapons", some [true, false, true]) := by decide +kernel
  have hmissing : (racks.past sharp).extraction? ⟨[⟨"base", ⟨1⟩⟩]⟩ missing =
      some (.definition "heavy", "weapons", none) := by decide +kernel
  have hheavy : ((racks.past sharp).past missing).extraction?
      ⟨[⟨"base", ⟨0⟩⟩, ⟨"extra", ⟨2⟩⟩]⟩ heavy =
        some (.definition "heavy", "sharp", some [false, true]) := by decide +kernel
  have hleft : ((racks.past sharp).environment.group "weapons").toOption =
      some ⟨[⟨"base", ⟨1⟩⟩]⟩ := by decide +kernel
  have htaken : (((racks.past sharp).past missing).environment.group "sharp").toOption =
      some ⟨[⟨"base", ⟨0⟩⟩, ⟨"extra", ⟨2⟩⟩]⟩ := by decide +kernel
  obtain ⟨hsplits, hshares⟩ := extraction_conserves
  constructor
  · obtain ⟨target, condition, hread, -, hverdicts⟩ := Patcher.exists_of_extraction? hsharp
    have hsplit := hsplits racks _ _ target condition rack hread rfl
    rw [eq_ok_of_toOption hverdicts] at hsplit
    exact ⟨target, hsplit⟩
  · have hextracted : Extracted racks "weapons" [.definition "sharp", .definition "weapons"]
        (racks.past sharp) := Extracted.start.line (by decide) (by decide) rfl hsharp
    have hstays := hextracted.line (by decide) (by decide) (eq_ok_of_toOption hleft) hmissing
    have hagain := hstays.line (by decide) (by decide) (eq_ok_of_toOption htaken) hheavy
    exact hshares racks _ "weapons" rack _ rfl hagain

end Patchwork
