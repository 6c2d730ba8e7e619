import Patchwork.Patcher
import Patchwork.Proofs.Agreement
import Patchwork.Proofs.Environments

/-!
# What a line binds

A line binds what it names on its left side, and an extraction also the group it
takes from.  Every other definition and every other table entry stays bound to what
it was bound to, and a line that fails leaves all of them alone.
-/

namespace Patchwork

open Agree.Computations (run_bind)

/-! ## Bindings -/

/-- Something a script can bind: a name, or the entry of a table with a key. -/
inductive Binding
  | definition (name : String)
  | entry (table key : String)
  deriving DecidableEq, Repr

/-- What a target binds. -/
def Target.binding (target : Target) : Binding :=
  match target.key with
  | none => .definition target.name
  | some key => .entry target.name key

/-- Everything a statement may bind. -/
def Statement.bindings : Statement → List Binding
  | .define target _ => [target.binding]
  | .query target _ => [target.binding]
  | .extract target source _ => [.definition source, target.binding]
  | .invoke _ => []

namespace Environment

/-- The expression of a table entry, if there is one. -/
def nodeOf? (environment : Environment) (table key : String) : Option Node :=
  (environment.tables.get? table).bind (·.get? key)

/-- The record group that something is bound to. -/
def groupAt? (environment : Environment) : Binding → Option Group
  | .definition name =>
    match environment.lookup? name with
    | some (.group group) => some group
    | _ => none
  | .entry table key =>
    match environment.nodeOf? table key with
    | some (.group group) => some group
    | _ => none

/-- Everything but the listed bindings is bound alike. -/
structure SameBut (bindings : List Binding) (before after : Environment) : Prop where
  definitions : ∀ name, .definition name ∉ bindings → after.lookup? name = before.lookup? name
  entries : ∀ table key, .entry table key ∉ bindings →
    after.nodeOf? table key = before.nodeOf? table key

namespace SameBut

variable {bindings : List Binding} {first second third : Environment}

theorem refl (environment : Environment) : SameBut bindings environment environment :=
  ⟨fun _ _ => rfl, fun _ _ _ => rfl⟩

theorem trans (hfirst : SameBut bindings first second) (hsecond : SameBut bindings second third) :
    SameBut bindings first third where
  definitions name hname := (hsecond.definitions name hname).trans (hfirst.definitions name hname)
  entries table key hentry :=
    (hsecond.entries table key hentry).trans (hfirst.entries table key hentry)

theorem groupAt?_eq (hsame : SameBut bindings first second) {binding : Binding}
    (hother : binding ∉ bindings) : second.groupAt? binding = first.groupAt? binding := by
  cases binding with
  | definition name => rw [groupAt?, groupAt?, hsame.definitions name hother]
  | entry table key => rw [groupAt?, groupAt?, hsame.entries table key hother]

end SameBut

theorem nodeOf?_setTableEntry (environment : Environment) (table key other otherKey : String)
    (node : Node) :
    (environment.setTableEntry table key node).nodeOf? other otherKey =
      if table = other ∧ key = otherKey then some node else environment.nodeOf? other otherKey := by
  simp only [setTableEntry, nodeOf?, Entries.get?_put, beq_iff_eq]
  by_cases htable : table = other
  · subst htable
    simp only [if_true, Option.bind_some, Entries.get?_put, beq_iff_eq, true_and]
    cases environment.tables.get? table with
    | none => rfl
    | some entries => rfl
  · simp only [htable, if_false, false_and]

theorem sameBut_define {bindings : List Binding} {name : String}
    (hbound : .definition name ∈ bindings) (environment : Environment) (value : Value) :
    SameBut bindings environment (environment.define name value) where
  definitions other hother := by
    have hne : name ≠ other := by
      rintro rfl
      exact hother hbound
    rw [lookup?_define, if_neg hne]
  entries _ _ _ := rfl

theorem sameBut_setTableEntry {bindings : List Binding} {table key : String}
    (hbound : .entry table key ∈ bindings) (environment : Environment) (node : Node) :
    SameBut bindings environment (environment.setTableEntry table key node) where
  definitions _ _ := rfl
  entries other otherKey hother := by
    have hne : ¬ (table = other ∧ key = otherKey) := by
      rintro ⟨rfl, rfl⟩
      exact hother hbound
    rw [nodeOf?_setTableEntry, if_neg hne]

end Environment

/-! ## Steps of a run -/

namespace Run

variable {Result Other : Type}

/-- A step that binds nothing, whether it fails or not. -/
def BindsNothing (step : Run Result) : Prop :=
  ∀ patcher, (step.run patcher).2.environment = patcher.environment

/-- A step that either fails and binds nothing, or binds some of the listed bindings
and nothing else. -/
def BindsOnly (bindings : List Binding) (step : Run Result) : Prop :=
  ∀ patcher,
    match step.run patcher with
    | (.error _, after) => after.environment = patcher.environment
    | (.ok _, after) => patcher.environment.SameBut bindings after.environment

variable {bindings : List Binding} {step : Run Result} {next : Result → Run Other}

theorem BindsNothing.bindsOnly (hstep : step.BindsNothing) : step.BindsOnly bindings := by
  intro patcher
  have hsame := hstep patcher
  generalize step.run patcher = ran at hsame ⊢
  rcases ran with ⟨fault | result, after⟩
  · exact hsame
  · dsimp only at hsame ⊢
    rw [hsame]
    exact Environment.SameBut.refl _

theorem BindsNothing.bind (hstep : step.BindsNothing)
    (hnext : ∀ result, (next result).BindsNothing) : BindsNothing (step >>= next) := by
  intro patcher
  have hsame := hstep patcher
  rw [run_bind]
  generalize step.run patcher = ran at hsame ⊢
  rcases ran with ⟨fault | result, between⟩
  · exact hsame
  · exact (hnext result between).trans hsame

theorem BindsOnly.bind (hstep : step.BindsNothing)
    (hnext : ∀ result, (next result).BindsOnly bindings) :
    BindsOnly bindings (step >>= next) := by
  intro patcher
  have hsame := hstep patcher
  rw [run_bind]
  generalize step.run patcher = ran at hsame ⊢
  rcases ran with ⟨fault | result, between⟩
  · exact hsame
  · have hrest := hnext result between
    dsimp only at hsame hrest ⊢
    rw [hsame] at hrest
    exact hrest

theorem bindsNothing_pure (result : Result) : (pure result : Run Result).BindsNothing :=
  fun _ => rfl

/-- An evaluation leads to the world it leaves and touches nothing else of the patcher. -/
theorem run_evaluate (evaluation : Setting → Eval Result) (patcher : Patcher) :
    (evaluate evaluation).run patcher =
      (((evaluation patcher.setting).run patcher.world).1,
        { patcher with world := ((evaluation patcher.setting).run patcher.world).2 }) := by
  rw [evaluate, run_bind]
  change ExceptT.run (_ : Run Result) patcher = _
  rcases (evaluation patcher.setting).run patcher.world with ⟨fault | result, world⟩ <;> rfl

/-- Evaluation reads what is defined and never changes it. -/
theorem bindsNothing_evaluate (evaluation : Setting → Eval Result) :
    (evaluate evaluation).BindsNothing := by
  intro patcher
  rw [run_evaluate]

theorem bindsNothing_note (level : Level) (source : Source) (text : String) :
    (note level source text).BindsNothing :=
  fun _ => rfl

theorem bindsOnly_redefine {change : Environment → Environment}
    (hchange : ∀ environment, Environment.SameBut bindings environment (change environment)) :
    (redefine change).BindsOnly bindings :=
  fun patcher => hchange patcher.environment

end Run

/-! ## Lines -/

theorem bindsNothing_listDefinitions : listDefinitions.BindsNothing := by
  intro patcher
  have hnotes : ∀ texts : List String,
      (texts.forM fun text => Run.note .debug .context text : Run PUnit).BindsNothing := by
    intro texts
    induction texts with
    | nil => exact Run.bindsNothing_pure ()
    | cons text rest ih => exact (Run.bindsNothing_note _ _ text).bind fun _ => ih
  rw [listDefinitions, run_bind]
  change ((if !patcher.listed then _ else _ : Run Unit).run patcher).2.environment = _
  split
  · exact hnotes _ { patcher with listed := true }
  · rfl

theorem bindsOnly_assign (target : Target) (node : Node) :
    (assign target node).BindsOnly [target.binding] := by
  unfold assign
  cases hkey : target.key with
  | some key =>
    have hbound : Binding.entry target.name key ∈ [target.binding] := by
      simp [Target.binding, hkey]
    exact Run.bindsOnly_redefine fun environment =>
      Environment.sameBut_setTableEntry hbound environment node
  | none =>
    have hbound : Binding.definition target.name ∈ [target.binding] := by
      simp [Target.binding, hkey]
    exact Run.BindsOnly.bind (Run.bindsNothing_evaluate _) fun value =>
      Run.bindsOnly_redefine fun environment => Environment.sameBut_define hbound environment value

theorem run_partition (name : String) (condition : Setting → RecordRef → Eval Bool)
    (patcher : Patcher) :
    match (partition name condition).run patcher with
    | (.error _, after) => after.environment = patcher.environment
    | (.ok (kept, _), after) =>
      after.environment = patcher.environment.define name (.group kept) := by
  rw [partition, run_bind]
  generalize hsplit : (Run.evaluate _).run patcher = split
  have hsame : split.2.environment = patcher.environment := by
    rw [← hsplit]
    exact Run.bindsNothing_evaluate _ patcher
  rcases split with ⟨fault | ⟨source, kept, taken⟩, between⟩
  · exact hsame
  · change between.environment.define name _ = _
    rw [show between.environment = patcher.environment from hsame]

/-- A group is assigned without fail: it is what it evaluates to. -/
theorem run_assign_group (target : Target) (group : Group) (patcher : Patcher) :
    ∃ after, (assign target (.group group)).run patcher = (.ok (), after) ∧
      after.environment.groupAt? target.binding = some group := by
  unfold assign Target.binding
  cases target.key with
  | some key =>
    refine ⟨_, rfl, ?_⟩
    simp only [Environment.groupAt?, Environment.nodeOf?_setTableEntry, and_self, if_true]
  | none =>
    have hevaluate : (Run.evaluate fun setting =>
        (Node.group group).evaluate setting none).run patcher =
          (.ok (.group group), patcher) := by
      simp only [Node.evaluate, Node.evaluateWith]
      rfl
    rw [run_bind, hevaluate]
    refine ⟨_, rfl, ?_⟩
    simp only [Environment.groupAt?, Environment.lookup?_define_self]

theorem bindsOnly_extract (target : Target) (source : String) (condition : Node) :
    (Statement.extract target source condition).execute.BindsOnly
      [.definition source, target.binding] := by
  intro patcher
  have hpartition := run_partition source
    (fun setting => condition.holds setting "extraction condition") patcher
  rw [Statement.execute, run_bind]
  generalize (partition source _).run patcher = parted at hpartition ⊢
  rcases parted with ⟨fault | ⟨kept, taken⟩, between⟩
  · exact hpartition
  · obtain ⟨after, hassigned, -⟩ := run_assign_group target taken between
    have hbinds := bindsOnly_assign target (.group taken) between
    dsimp only at hpartition ⊢
    rw [hassigned] at hbinds ⊢
    have hsource : patcher.environment.SameBut [.definition source, target.binding]
        between.environment := by
      rw [hpartition]
      exact Environment.sameBut_define List.mem_cons_self _ _
    exact hsource.trans
      ⟨fun name hname => hbinds.definitions name fun hmem => hname (List.mem_cons_of_mem _ hmem),
        fun table key hentry =>
          hbinds.entries table key fun hmem => hentry (List.mem_cons_of_mem _ hmem)⟩

theorem bindsNothing_invoke (expression : Node) :
    (Statement.invoke expression).execute.BindsNothing := by
  have hevaluate : Run.BindsNothing (do
      let _ ← Run.evaluate fun setting => expression.evaluate setting none) :=
    (Run.bindsNothing_evaluate _).bind fun _ => Run.bindsNothing_pure ()
  unfold Statement.execute
  cases expression with
  | pipe left procedure arguments pairwise =>
    exact bindsNothing_listDefinitions.bind fun _ => hevaluate
  | _ => exact hevaluate

theorem Statement.bindsOnly (statement : Statement) :
    statement.execute.BindsOnly statement.bindings := by
  cases statement with
  | define target expression => exact bindsOnly_assign target expression
  | query target found =>
    have hassign := fun group => bindsOnly_assign target (.group group)
    exact (Run.BindsOnly.bind (Run.bindsNothing_evaluate _) hassign :)
  | extract target source condition => exact bindsOnly_extract target source condition
  | invoke expression => exact (bindsNothing_invoke expression).bindsOnly

theorem run_executeLine_of_read {patcher : Patcher} {line : String} {statement : Statement}
    (hread : Statement.ofLine patcher.names line = .ok statement) :
    (executeLine line).run patcher = statement.execute.run patcher := by
  rw [executeLine, run_bind]
  change ExceptT.run (_ : Run Unit) patcher = _
  rw [hread]

theorem run_executeLine_of_unread {patcher : Patcher} {line : String} {fault : Fault}
    (hread : Statement.ofLine patcher.names line = .error fault) :
    (executeLine line).run patcher = (.error fault, patcher) := by
  rw [executeLine, run_bind]
  change ExceptT.run (_ : Run Unit) patcher = _
  rw [hread]
  rfl

/-- A line that fails binds nothing. -/
theorem environment_of_failed {patcher after : Patcher} {line : String} {fault : Fault}
    (hrun : (executeLine line).run patcher = (.error fault, after)) :
    after.environment = patcher.environment := by
  cases hread : Statement.ofLine patcher.names line with
  | error unread =>
    rw [run_executeLine_of_unread hread] at hrun
    cases hrun
    rfl
  | ok statement =>
    have hbinds := statement.bindsOnly patcher
    rw [← run_executeLine_of_read hread, hrun] at hbinds
    exact hbinds

/-- A line that succeeds has been read as a statement, and binds nothing else than it. -/
theorem exists_of_executed {patcher after : Patcher} {line : String}
    (hrun : (executeLine line).run patcher = (.ok (), after)) :
    ∃ statement, Statement.ofLine patcher.names line = .ok statement ∧
      statement.execute.run patcher = (.ok (), after) ∧
        patcher.environment.SameBut statement.bindings after.environment := by
  cases hread : Statement.ofLine patcher.names line with
  | error unread =>
    rw [run_executeLine_of_unread hread] at hrun
    cases hrun
  | ok statement =>
    have hbinds := statement.bindsOnly patcher
    rw [run_executeLine_of_read hread] at hrun
    rw [hrun] at hbinds
    exact ⟨statement, rfl, hrun, hbinds⟩

/-- A line that fails leaves everything defined as it was.  A line that succeeds has
been read as a statement: an invocation leaves everything defined as it was, and any
other statement may change the definition or the table entry it has as its target, and
the group it extracts from, and nothing else. -/
theorem executeLine_binds (patcher : Patcher) (line : String) :
    match (executeLine line).run patcher with
    | (.error _, after) => after.environment = patcher.environment
    | (.ok (), after) =>
      ∃ statement, Statement.ofLine patcher.names line = .ok statement ∧
        patcher.environment.SameBut statement.bindings after.environment ∧
        ∀ expression, statement = .invoke expression →
          after.environment = patcher.environment := by
  cases hread : Statement.ofLine patcher.names line with
  | error fault =>
    rw [run_executeLine_of_unread hread]
  | ok statement =>
    have hbinds := statement.bindsOnly patcher
    have hinvoke : ∀ expression, statement = .invoke expression →
        (statement.execute.run patcher).2.environment = patcher.environment := by
      rintro expression rfl
      exact bindsNothing_invoke expression patcher
    rw [run_executeLine_of_read hread]
    generalize statement.execute.run patcher = ran at hbinds hinvoke ⊢
    rcases ran with ⟨fault | result, after⟩
    · exact hbinds
    · exact ⟨statement, rfl, hbinds, hinvoke⟩

end Patchwork
