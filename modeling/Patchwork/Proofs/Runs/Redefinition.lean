import Patchwork.Proofs.Evaluation.Visits
import Patchwork.Proofs.FieldSetting.Together
import Patchwork.Proofs.Likeness.Shadowing
import Patchwork.Proofs.Runs.DefinedNames

/-!
# Names that are defined again

A name is replaced by what it is defined as when an expression is read, except in front of an
index, where it is looked up whenever the expression is evaluated.  So a name that no line has in
front of an index can be defined again without a change to anything that has been read before:
table entries, closures and expressions go on giving what they gave.
-/

namespace Patchwork

open Agree Eval

/-! ## Expressions without a name in front of an index -/

variable {name : String}

theorem not_mem_indexedInNodes_iff {nodes : List Node} :
    name ∉ indexedInNodes nodes ↔ ∀ node ∈ nodes, name ∉ node.indexed := by
  induction nodes with
  | nil => exact iff_of_true List.not_mem_nil (List.forall_mem_nil _)
  | cons node rest ih => rw [indexedInNodes, List.mem_append, not_or, ih, List.forall_mem_cons]

theorem indexed_subset_indexedInNodes {node : Node} {nodes : List Node} (hnode : node ∈ nodes) :
    node.indexed ⊆ indexedInNodes nodes := by
  intro indexed hindexed
  by_contra hnot
  exact not_mem_indexedInNodes_iff.mp hnot node hnode hindexed

theorem Node.indexed_subset_of_mem_parts {part node : Node} (hpart : part ∈ node.parts) :
    part.indexed ⊆ node.indexed := by
  cases node with
  | unary operator operand =>
    cases List.mem_singleton.mp hpart
    exact List.Subset.refl _
  | binary operator left right | index left right =>
    obtain rfl | hright := List.mem_cons.mp hpart
    · exact List.subset_append_left _ _
    · cases List.mem_singleton.mp hright
      exact List.subset_append_right _ _
  | call | test | array | procedure | command => exact indexed_subset_indexedInNodes hpart
  | pipe left procedure arguments pairwise =>
    obtain rfl | hargument := List.mem_cons.mp hpart
    · exact List.subset_append_left _ _
    · exact List.Subset.trans (indexed_subset_indexedInNodes hargument)
        (List.subset_append_right _ _)
  | literal | parameter | tableName | group | lambda => cases hpart

/-- The values that lead only to expressions without the name in front of an index. -/
abbrev Value.Unindexed (name : String) : Value → Prop :=
  Value.LeadsTo (fun body => name ∉ body.indexed) fun _ => True

mutual

theorem Value.unindexed_of_not_mem (value : Value) (hvalue : name ∉ value.indexed) :
    value.Unindexed name := by
  cases value with
  | array items => exact allLeadTo_of_not_mem items hvalue
  | closure identity parameter body record => exact hvalue
  | _ => trivial

theorem allLeadTo_of_not_mem (items : List Value) (hitems : name ∉ indexedInItems items) :
    AllLeadTo (fun body => name ∉ body.indexed) (fun _ => True) items := by
  cases items with
  | nil => trivial
  | cons item rest =>
    rw [indexedInItems, List.mem_append, not_or] at hitems
    exact ⟨Value.unindexed_of_not_mem item hitems.1, allLeadTo_of_not_mem rest hitems.2⟩

end

mutual

theorem Value.Unindexed.not_mem (value : Value) (hvalue : value.Unindexed name) :
    name ∉ value.indexed := by
  cases value with
  | array items => exact not_mem_of_allLeadTo items hvalue
  | closure identity parameter body record => exact hvalue
  | _ => exact List.not_mem_nil

theorem not_mem_of_allLeadTo (items : List Value)
    (hitems : AllLeadTo (fun body => name ∉ body.indexed) (fun _ => True) items) :
    name ∉ indexedInItems items := by
  cases items with
  | nil => exact List.not_mem_nil
  | cons item rest =>
    rw [indexedInItems, List.mem_append, not_or]
    exact ⟨Value.Unindexed.not_mem item hitems.1, not_mem_of_allLeadTo rest hitems.2⟩

end

/-- In nothing that is defined does the name stand in front of an index. -/
abbrev Environment.Unindexed (environment : Environment) (name : String) : Prop :=
  environment.All (Value.Unindexed name) fun node => name ∉ node.indexed

theorem Environment.Unindexed.node_leadsTo {environment : Environment}
    (henvironment : environment.Unindexed name) {node : Node} (hnode : name ∉ node.indexed) :
    node.LeadsTo (fun body => name ∉ body.indexed) (fun _ => True) environment where
  literal := by
    rintro value rfl
    exact Value.unindexed_of_not_mem value hnode
  named other _ := henvironment.tableOrDefinition (fun _ => trivial) other
  lambda := by
    rintro parameter body rfl
    exact hnode

/-! ## Evaluation where a name is defined differently -/

/-- Two settings in which the same is defined but for one name, which stands nowhere in front of
an index. -/
structure Setting.SameBut (name : String) (setting setting' : Setting) : Prop where
  repository : setting'.repository = setting.repository
  tables : setting'.environment.tables = setting.environment.tables
  definitions : ∀ other ≠ name,
    setting'.environment.lookup? other = setting.environment.lookup? other
  unindexed : setting.environment.Unindexed name

section

variable {setting setting' : Setting} (hsame : setting.SameBut name setting')

include hsame

theorem Setting.SameBut.tableOrDefinition {other : String} (hother : other ≠ name) :
    setting'.environment.tableOrDefinition other = setting.environment.tableOrDefinition other := by
  unfold Environment.tableOrDefinition
  rw [hsame.tables, hsame.definitions other hother]

/-- Without the name in front of an index an expression comes to the same in both settings, if
what lies deeper does. -/
theorem Node.coincide_of_sameBut {deeper deeper' : Deeper}
    (hdeeper : Deeper.SameBelow (fun body => name ∉ body.indexed) (fun _ => True) deeper deeper'
      setting setting') (node : Node) (hnode : name ∉ node.indexed) :
    (∀ record, Coincide (Value.Unindexed name) (node.evaluateWith deeper setting record)
      (node.evaluateWith deeper' setting' record)) ∧
    ∀ scope record, scope.LeadsTo (fun body => name ∉ body.indexed) (fun _ => True) →
      Coincide (Value.Unindexed name) (node.evaluateIn deeper setting scope record)
        (node.evaluateIn deeper' setting' scope record) := by
  induction node using Node.induction_on_parts with
  | step node ih =>
    have hparts := fun part hpart =>
      ih part hpart fun hmem => hnode (Node.indexed_subset_of_mem_parts hpart hmem)
    have hleads := hsame.unindexed.node_leadsTo hnode
    have hnamed : ∀ other, node = .tableName other →
        setting'.environment.tableOrDefinition other =
          setting.environment.tableOrDefinition other := by
      rintro other rfl
      exact hsame.tableOrDefinition fun hother => hnode (hother ▸ List.mem_singleton_self _)
    refine ⟨fun record => ?_, fun scope record hscope => ?_⟩
    · rw [Node.evaluateWith_eq_visit, Node.evaluateWith_eq_visit]
      exact Node.visit_coincide hdeeper hleads hnamed fun part hpart => (hparts part hpart).1
    · rw [Node.evaluateIn_eq_visitIn, Node.evaluateIn_eq_visitIn]
      exact Node.visitIn_coincide hdeeper hscope hleads hnamed
        (fun part hpart => (hparts part hpart).1)
        fun part hpart record => (hparts part hpart).2 scope record hscope

theorem Closure.callWith_of_sameBut {deeper deeper' : Deeper}
    (hdeeper : Deeper.SameBelow (fun body => name ∉ body.indexed) (fun _ => True) deeper deeper'
      setting setting') {closure : Closure} (hbody : name ∉ closure.body.indexed)
    {arguments : List Value} (harguments : ∀ argument ∈ arguments, argument.Unindexed name) :
    closure.callWith deeper' setting' arguments = closure.callWith deeper setting arguments := by
  unfold callWith
  split
  · rename_i value
    have hscope : Scope.LeadsTo (fun body => name ∉ body.indexed) (fun _ => True)
        [(closure.parameter, value)] := by
      intro other found hfound
      obtain ⟨here, hmem⟩ := Entries.mem_of_get? hfound
      cases List.mem_singleton.mp hmem
      exact harguments value (List.mem_singleton_self value)
    have hevaluate := (Node.coincide_of_sameBut hsame hdeeper closure.body hbody).2 _
      closure.record hscope
    rw [hevaluate.same]
  · rfl

theorem sameBelow_deeperAt (depth : Nat) :
    Deeper.SameBelow (fun body => name ∉ body.indexed) (fun _ => True) (deeperAt setting depth)
      (deeperAt setting' depth) setting setting' := by
  induction depth with
  | zero =>
    exact {
      repository := hsame.repository
      tables_eq := hsame.tables
      entry := fun _ _ _ _ _ _ => Coincide.of_gives (Gives.of_fail _)
      call := fun _ _ _ _ => rfl }
  | succ depth ih =>
    exact {
      repository := hsame.repository
      tables_eq := hsame.tables
      entry := fun table key node record _ hentry =>
        (Node.coincide_of_sameBut hsame ih node (hsame.unindexed.of_tableEntry hentry)).1 record
      call := fun closure values hbody hvalues =>
        Closure.callWith_of_sameBut hsame ih hbody fun value hvalue =>
          (allData_iff.mp hvalues value hvalue).leadsTo }

/-- Evaluation comes to the same, whatever the name is defined as. -/
theorem Node.evaluate_of_sameBut {node : Node} (hnode : name ∉ node.indexed)
    (record : Option RecordRef) :
    Coincide (Value.Unindexed name) (node.evaluate setting record)
      (node.evaluate setting' record) :=
  (Node.coincide_of_sameBut hsame (sameBelow_deeperAt hsame nestingLimit) node hnode).1 record

theorem Closure.call_of_sameBut {closure : Closure} (hbody : name ∉ closure.body.indexed)
    {arguments : List Value} (harguments : ∀ argument ∈ arguments, argument.Unindexed name) :
    closure.call setting' arguments = closure.call setting arguments := by
  have hcalled : ∀ depth, (deeperAt setting' depth).call closure arguments =
      (deeperAt setting depth).call closure arguments := by
    intro depth
    cases depth with
    | zero => rfl
    | succ depth =>
      exact Closure.callWith_of_sameBut hsame (sameBelow_deeperAt hsame depth) hbody harguments
  exact hcalled nestingLimit

end

/-! ## What lines leave -/

/-- The name that is an expression in front of an index. -/
def Node.tableName? : Node → Option String
  | .tableName name => some name
  | _ => none

/-- The names that an expression has in front of indexes as it is written, and not in what a name
has been replaced by. -/
def Node.tableNames (node : Node) : List String :=
  node.expressions.filterMap Node.tableName?

theorem Node.tableNames_subset_of_mem_parts {part node : Node} (hpart : part ∈ node.parts) :
    part.tableNames ⊆ node.tableNames := by
  intro other hother
  obtain ⟨inner, hinner, hname⟩ := List.mem_filterMap.mp hother
  exact List.mem_filterMap.mpr ⟨inner, Node.expressions_subset_of_mem_parts hpart hinner, hname⟩

/-- Reading hands on that a name does not stand in front of an index unless it is written so. -/
theorem unindexed_readingClosed {environment : Environment}
    (henvironment : environment.Unindexed name) :
    ReadingClosed environment fun _ node => name ∉ node.tableNames → name ∉ node.indexed := by
  have hall : ∀ {node : Node} {nodes : List Node}, (∀ part ∈ nodes, part ∈ node.parts) →
      (∀ part ∈ nodes, name ∉ part.tableNames → name ∉ part.indexed) →
      name ∉ node.tableNames → name ∉ indexedInNodes nodes :=
    fun hparts hnodes hnot => not_mem_indexedInNodes_iff.mpr fun part hpart =>
      hnodes part hpart fun hmem =>
        hnot (Node.tableNames_subset_of_mem_parts (hparts part hpart) hmem)
  have htwo : ∀ {first second : List Node} {left right : List String},
      (name ∉ first.filterMap Node.tableName? → name ∉ left) →
      (name ∉ second.filterMap Node.tableName? → name ∉ right) →
      name ∉ (first ++ second).filterMap Node.tableName? → name ∉ left ++ right := by
    intro first second left right hleft hright hnot
    rw [List.filterMap_append, List.mem_append, not_or] at hnot
    rw [List.mem_append, not_or]
    exact ⟨hleft hnot.1, hright hnot.2⟩
  constructor
  case literal =>
    intro scope value hwritten _
    cases hwritten <;> exact List.not_mem_nil
  case definition =>
    exact fun hlookup _ => Value.Unindexed.not_mem _ (henvironment.of_lookup? hlookup)
  case group | parameter => exact fun _ _ => List.not_mem_nil
  case tableName => exact fun _ hnot => hnot
  case unary | lambda => exact fun _ hpart => hpart
  case binary => exact fun _ hleft hright => htwo hleft hright
  case index => exact fun hleft hright => htwo hleft hright
  case array => exact fun helements => hall (fun _ => id) helements
  case call | test | procedure | command => exact fun _ harguments => hall (fun _ => id) harguments
  case pairwise => exact fun _ hprocedure => hprocedure
  case pipe => exact fun _ hleft hprocedure => htwo hleft hprocedure

section

variable {before : Patcher} (hbefore : before.environment.Unindexed name)

include hbefore

theorem assign_unindexed (target : Target) {node : Node} (hnode : name ∉ node.indexed) :
    ((assign target node).run before).2.environment.Unindexed name := by
  unfold assign
  cases target.key with
  | some key => exact hbefore.setTableEntry hnode _ _
  | none =>
    have hsame : Setting.SameBut name before.setting before.setting :=
      ⟨rfl, rfl, fun _ _ => rfl, hbefore⟩
    have hgives := (Node.evaluate_of_sameBut hsame hnode none).gives before.world
    dsimp only
    rw [Agree.Computations.run_bind, Run.run_evaluate]
    rcases hrun : (node.evaluate before.setting none).run before.world with ⟨fault | value, world⟩
    · exact hbefore
    · exact hbefore.define (hgives value world hrun) _

theorem execute_unindexed {statement : Statement} (hstatement : name ∉ statement.node.indexed) :
    (statement.execute.run before).2.environment.Unindexed name := by
  cases statement with
  | define target expression => exact assign_unindexed hbefore target hstatement
  | query target found =>
    rw [Statement.execute, Agree.Computations.run_bind, Run.run_evaluate]
    generalize (resolveGroup before.setting.repository _ _ _ _).run before.world = ran
    obtain ⟨fault | group, world⟩ := ran
    · exact hbefore
    · have hbetween : ({ before with world := world } : Patcher).environment.Unindexed name := hbefore
      exact assign_unindexed hbetween target List.not_mem_nil
  | extract target source condition =>
    have hpartition := run_partition source
      (fun setting => condition.holds setting "extraction condition") before
    rw [Statement.execute, Agree.Computations.run_bind]
    generalize (partition source _).run before = parted at hpartition ⊢
    obtain ⟨fault | ⟨kept, taken⟩, between⟩ := parted
    · rw [show between.environment = before.environment from hpartition]
      exact hbefore
    · refine assign_unindexed ?_ target List.not_mem_nil
      rw [show between.environment = _ from hpartition]
      have hkept : (Value.group kept).Unindexed name := trivial
      exact hbefore.define hkept _
  | invoke expression =>
    rw [bindsNothing_invoke expression before]
    exact hbefore

theorem executeLine_unindexed {line : String}
    (hwritten : ∀ statement, Statement.ofLine before.names line = .ok statement →
      name ∉ statement.node.tableNames) :
    ((executeLine line).run before).2.environment.Unindexed name := by
  rw [run_executeLine]
  cases hread : Statement.ofLine before.names line with
  | error fault => exact hbefore
  | ok statement =>
    exact execute_unindexed hbefore (Statement.holds_ofLine (unindexed_readingClosed hbefore) hread
      (hwritten statement hread))

section

variable {raw : String} {rest : List String}
  (hwritten : ∀ statement ∈ before.statements (raw :: rest), name ∉ statement.node.tableNames)

include hwritten

theorem afterLine_unindexed (hrunning : before.world.stopping = false) :
    (before.afterLine raw).environment.Unindexed name := by
  rw [Patcher.afterLine]
  split
  · rename_i hraw
    exact executeLine_unindexed hbefore fun statement hread =>
      hwritten statement (Patcher.mem_statements_cons.mpr ⟨hrunning, .inl ⟨hraw, hread⟩⟩)
  · exact hbefore

omit hbefore in
theorem written_tail (hrunning : before.world.stopping = false)
    (hfault : before.lineFault? raw = none) :
    ∀ statement ∈ (before.afterLine raw).statements rest, name ∉ statement.node.tableNames :=
  fun statement hlater =>
    hwritten statement (Patcher.mem_statements_cons.mpr ⟨hrunning, .inr ⟨hfault, hlater⟩⟩)

end

variable {lines : List String}
  (hwritten : ∀ statement ∈ before.statements lines, name ∉ statement.node.tableNames)

include hwritten

/-- A name that no line has in front of an index stands there in nothing that is defined. -/
theorem executeLines_unindexed (number executed : Nat) :
    (executeLines number executed lines before).2.environment.Unindexed name := by
  induction lines generalizing number executed before with
  | nil => exact hbefore
  | cons raw rest ih =>
    cases hrunning : before.world.stopping with
    | true =>
      rw [executeLines_of_stopping _ _ _ hrunning]
      exact hbefore
    | false =>
      have hafter := afterLine_unindexed hbefore hwritten hrunning
      cases hfault : before.lineFault? raw with
      | some fault =>
        rw [executeLines_of_fault _ _ _ hrunning hfault]
        exact hafter
      | none =>
        rw [executeLines_of_no_fault _ _ _ hrunning hfault]
        exact ih hafter (written_tail hwritten hrunning hfault) _ _

theorem statements_unindexed {statement : Statement} (hstatement : statement ∈ before.statements lines) :
    name ∉ statement.node.indexed := by
  induction lines generalizing before with
  | nil => cases hstatement
  | cons raw rest ih =>
    obtain ⟨hrunning, ⟨-, hread⟩ | ⟨hfault, hlater⟩⟩ := Patcher.mem_statements_cons.mp hstatement
    · exact Statement.holds_ofLine (unindexed_readingClosed hbefore) hread
        (hwritten statement hstatement)
    · exact ih (afterLine_unindexed hbefore hwritten hrunning)
        (written_tail hwritten hrunning hfault) hlater

end

/-! ## What lines have been read as -/

/-- Everything that the statements of lines refer to is within each horizon that covers the
records and the marks there are in the end. -/
theorem statements_within {horizon : Horizon} {before : Patcher} {lines : List String}
    {number executed : Nat} (hbefore : before.Within horizon)
    (hcovers : (executeLines number executed lines before).2.CoveredBy horizon)
    {statement : Statement} (hstatement : statement ∈ before.statements lines) :
    statement.node.Within horizon := by
  have hcovered := (staysTo_executeLines number executed lines before).grown.covers hcovers
  induction lines generalizing number executed before with
  | nil => cases hstatement
  | cons raw rest ih =>
    obtain ⟨hrunning, ⟨-, hread⟩ | ⟨hfault, hlater⟩⟩ := Patcher.mem_statements_cons.mp hstatement
    · exact Statement.within_ofLine hbefore.environment hcovered.labels hread
    · rw [executeLines_of_no_fault _ _ _ hrunning hfault] at hcovers
      have hbetween := (staysTo_executeLines _ _ rest (before.afterLine raw)).grown.covers hcovers
      refine ih ?_ hcovers hlater hbetween
      rw [Patcher.afterLine] at hbetween ⊢
      split at hbetween <;> rename_i hraw
      · rw [if_pos hraw]
        exact (staysTo_executeLine (stripComment raw) before).within horizon trivial hbefore
          hbetween
      · rw [if_neg hraw]
        exact hbefore

mutual

/-- What is handed on to the parts of an expression and to the bodies of lambdas holds of all
expressions inside it. -/
theorem Node.holds_of_mem_expressions {holds : Node → Prop}
    (hparts : ∀ node, holds node → ∀ part ∈ node.parts, holds part)
    (hbody : ∀ parameter body, holds (.lambda parameter body) → holds body) (node : Node)
    (hnode : holds node) : ∀ inner ∈ node.expressions, holds inner := by
  have hpart := hparts node hnode
  cases node with
  | unary operator operand =>
    refine List.forall_mem_cons.mpr ⟨hnode, ?_⟩
    exact Node.holds_of_mem_expressions hparts hbody operand (hpart operand List.mem_cons_self)
  | binary operator left right | index left right =>
    refine List.forall_mem_cons.mpr ⟨hnode, List.forall_mem_append.mpr ⟨?_, ?_⟩⟩
    · exact Node.holds_of_mem_expressions hparts hbody left (hpart left List.mem_cons_self)
    · exact Node.holds_of_mem_expressions hparts hbody right
        (hpart right (List.mem_cons_of_mem _ List.mem_cons_self))
  | call called nodes | test called nodes | procedure called nodes pairwise | command called nodes =>
    exact List.forall_mem_cons.mpr ⟨hnode, holds_of_mem_expressionsIn hparts hbody nodes hpart⟩
  | array nodes => exact List.forall_mem_cons.mpr ⟨hnode, holds_of_mem_expressionsIn hparts hbody nodes hpart⟩
  | pipe left procedure arguments pairwise =>
    obtain ⟨hleft, harguments⟩ := List.forall_mem_cons.mp hpart
    refine List.forall_mem_cons.mpr ⟨hnode, List.forall_mem_append.mpr ⟨?_, ?_⟩⟩
    · exact Node.holds_of_mem_expressions hparts hbody left hleft
    · exact holds_of_mem_expressionsIn hparts hbody arguments harguments
  | lambda parameter body =>
    refine List.forall_mem_cons.mpr ⟨hnode, ?_⟩
    exact Node.holds_of_mem_expressions hparts hbody body (hbody parameter body hnode)
  | literal | parameter | tableName | group => exact List.forall_mem_singleton.mpr hnode

theorem holds_of_mem_expressionsIn {holds : Node → Prop}
    (hparts : ∀ node, holds node → ∀ part ∈ node.parts, holds part)
    (hbody : ∀ parameter body, holds (.lambda parameter body) → holds body) (nodes : List Node)
    (hnodes : ∀ node ∈ nodes, holds node) : ∀ inner ∈ expressionsIn nodes, holds inner := by
  cases nodes with
  | nil => exact fun _ hinner => nomatch hinner
  | cons node rest =>
    obtain ⟨hnode, hrest⟩ := List.forall_mem_cons.mp hnodes
    exact List.forall_mem_append.mpr
      ⟨Node.holds_of_mem_expressions hparts hbody node hnode,
        holds_of_mem_expressionsIn hparts hbody rest hrest⟩

end

theorem Node.Within.of_mem_parts {horizon : Horizon} {node : Node} (hnode : node.Within horizon) :
    ∀ part ∈ node.parts, part.Within horizon := by
  cases node with
  | unary operator operand => exact List.forall_mem_singleton.mpr (Node.within_unary.mp hnode)
  | binary operator left right =>
    obtain ⟨hleft, hright⟩ := Node.within_binary.mp hnode
    exact List.forall_mem_cons.mpr ⟨hleft, List.forall_mem_singleton.mpr hright⟩
  | index left right =>
    obtain ⟨hleft, hright⟩ := Node.within_index.mp hnode
    exact List.forall_mem_cons.mpr ⟨hleft, List.forall_mem_singleton.mpr hright⟩
  | call => exact Node.within_call.mp hnode
  | test => exact Node.within_test.mp hnode
  | array => exact Node.within_array.mp hnode
  | procedure => exact Node.within_procedure.mp hnode
  | command => exact Node.within_command.mp hnode
  | pipe => exact List.forall_mem_cons.mpr (Node.within_pipe.mp hnode)
  | literal | parameter | tableName | group | lambda => exact fun _ hpart => nomatch hpart

theorem Node.expressions_settled {horizon : Horizon} (node : Node) (hunindexed : name ∉ node.indexed)
    (hwithin : node.Within horizon) :
    ∀ inner ∈ node.expressions, name ∉ inner.indexed ∧ inner.Within horizon := by
  refine @Node.holds_of_mem_expressions (fun node => name ∉ node.indexed ∧ node.Within horizon)
    (fun node hnode part hpart => ⟨?_, ?_⟩) (fun parameter body hnode => ⟨hnode.1, ?_⟩) node
    ⟨hunindexed, hwithin⟩
  · exact fun hmem => hnode.1 (Node.indexed_subset_of_mem_parts hpart hmem)
  · exact hnode.2.of_mem_parts part hpart
  · exact Node.within_lambda.mp hnode.2

/-! ## Closures in a value -/

mutual

/-- The closures in a value. -/
def Value.closures : Value → List Closure
  | .array items => closuresInItems items
  | .closure identity parameter body record => [⟨identity, parameter, body, record⟩]
  | _ => []

/-- The closures in the elements of an array. -/
def closuresInItems : List Value → List Closure
  | [] => []
  | item :: rest => item.closures ++ closuresInItems rest

end

/-- The value that is a closure. -/
abbrev Closure.value (closure : Closure) : Value :=
  .closure closure.identity closure.parameter closure.body closure.record

mutual

/-- What is handed on to the elements of an array holds of all closures in a value. -/
theorem Value.holds_of_mem_closures {holds : Value → Prop}
    (hitem : ∀ items, holds (.array items) → ∀ item ∈ items, holds item) (value : Value)
    (hvalue : holds value) : ∀ closure ∈ value.closures, holds closure.value := by
  cases value with
  | array items => exact holds_of_mem_closuresInItems hitem items (hitem items hvalue)
  | closure => exact List.forall_mem_singleton.mpr hvalue
  | _ => exact fun _ hclosure => nomatch hclosure

theorem holds_of_mem_closuresInItems {holds : Value → Prop}
    (hitem : ∀ items, holds (.array items) → ∀ item ∈ items, holds item) (items : List Value)
    (hitems : ∀ item ∈ items, holds item) : ∀ closure ∈ closuresInItems items, holds closure.value := by
  cases items with
  | nil => exact fun _ hclosure => nomatch hclosure
  | cons item rest =>
    obtain ⟨hfirst, hrest⟩ := List.forall_mem_cons.mp hitems
    exact List.forall_mem_append.mpr
      ⟨Value.holds_of_mem_closures hitem item hfirst, holds_of_mem_closuresInItems hitem rest hrest⟩

end

theorem Value.closures_settled {horizon : Horizon} (value : Value)
    (hunindexed : value.Unindexed name) (hwithin : value.Within horizon) :
    ∀ closure ∈ value.closures, name ∉ closure.body.indexed ∧ closure.value.Within horizon := by
  refine @Value.holds_of_mem_closures (fun value => value.Unindexed name ∧ value.Within horizon)
    (fun items hitems item hitem => ⟨?_, ?_⟩) value ⟨hunindexed, hwithin⟩
  · exact allLeadTo_iff.mp hitems.1 item hitem
  · exact Value.within_array.mp hitems.2 item hitem

/-! ## Worlds that have grown -/

/-- There may be new records, and marks may have been given; nothing else has happened that an
evaluation can tell. -/
structure World.Undisturbed (before after : World) : Prop where
  pool : before.pool.KeptIn after.pool
  active : after.active = before.active
  draws : after.draws = before.draws
  stopping : after.stopping = before.stopping

theorem World.Undisturbed.refl (world : World) : world.Undisturbed world :=
  ⟨Pool.KeptIn.refl _, rfl, rfl, rfl⟩

theorem Pool.eq_of_get {pool other : Pool} (hsize : pool.records.size = other.records.size)
    (hget : ∀ ref, pool.get ref = other.get ref) : pool = other := by
  refine congrArg Pool.mk (Array.ext hsize fun index hleft hright => ?_)
  simpa [get, hleft, hright] using hget ⟨index⟩

theorem Pool.extendedTo_eq {pool later : Pool} (hkept : pool.KeptIn later) :
    pool.extendedTo later = later := by
  refine Pool.eq_of_get Pool.size_extendedTo fun ref => ?_
  by_cases hheld : pool.Holds ref
  · rw [get_extendedTo_of_holds (size_le_of_keptIn hkept) hheld, (hkept ref hheld).2]
  · exact get_extendedTo_of_not_holds hheld

theorem Mod.relocate_eq {relocation : Relocation} {mod : Mod}
    (hrecords : ∀ own ∈ mod.records, relocation.ref own = own) : mod.relocate relocation = mod := by
  rw [relocate, map_eq_self_iff.mpr hrecords]

theorem Repository.relocate_eq {relocation : Relocation} {repository : Repository}
    (hplaces : ∀ place ∈ repository.places, relocation.ref place = place) :
    repository.relocate relocation = repository := by
  refine congrArg Repository.mk (map_eq_self_iff.mpr fun entry hentry => Prod.ext rfl ?_)
  refine Mod.relocate_eq fun own hown => hplaces own ?_
  exact mem_places.mpr ⟨entry.2, List.mem_map_of_mem hentry, hown⟩

section

variable {before after : Patcher} (hgrounded : before.Grounded)
  (hundisturbed : before.world.Undisturbed after.world)

include hgrounded hundisturbed

/-- A world that is not disturbed cannot be told from the one before it, where new records and
marks correspond. -/
theorem World.Undisturbed.worlds (hown : before.world.OwnHeld)
    (hmarks : before.world.marks ≤ after.world.marks) :
    (before.world.movedTo after.world).relocation.Worlds before.world after.world where
  pools := by
    have hpools := World.pools_extendedTo (Pool.size_le_of_keptIn hundisturbed.pool)
      (hgrounded.within_movedTo after.world).pool
    rwa [show (before.world.extendedTo after.world).pool = after.world.pool from
      Pool.extendedTo_eq hundisturbed.pool] at hpools
  active := by
    rw [hundisturbed.active]
    cases hactive : before.world.active with
    | none => exact .none
    | some mod =>
      refine .some ⟨(Mod.relocate_eq fun own hmem => ?_).symm, fun _ _ hloaded => nomatch hloaded⟩
      exact (before.world.covers_movedTo after.world).ref (hown mod hactive own hmem)
  draws := hundisturbed.draws
  stopping := hundisturbed.stopping
  marks := World.mark_movedTo hmarks

end

/-- At two points of a run an evaluation does the same in every world; and from the world of the
one it leads to the same fault or value, and to the same world, as from that of the other, where
the records and marks that are new at the second point correspond. -/
structure Patcher.KeepsResult (before after : Patcher) (evaluation : Setting → Eval Value) :
    Prop where
  same : evaluation after.setting = evaluation before.setting
  outcome : Outcomes (before.world.movedTo after.world).relocation.Values
    ((evaluation before.setting).run before.world).1 ((evaluation after.setting).run after.world).1
  world : (before.world.movedTo after.world).relocation.Worlds
    ((evaluation before.setting).run before.world).2 ((evaluation after.setting).run after.world).2

/-- Since a point of a run a name may have been defined again, and nothing else has happened that
an evaluation can tell. -/
structure Patcher.Redefines (name : String) (before after : Patcher) : Prop where
  settings : before.setting.SameBut name after.setting
  moved : (before.world.movedTo after.world).relocation.Settings before.setting before.setting
  worlds : (before.world.movedTo after.world).relocation.Worlds before.world after.world

namespace Patcher.Redefines

variable {before after : Patcher} (hredefines : before.Redefines name after)

include hredefines

theorem keepsResult {evaluation : Setting → Eval Value}
    (hsame : evaluation after.setting = evaluation before.setting)
    (hmoved : Computations (before.world.movedTo after.world).relocation.Worlds
      (before.world.movedTo after.world).relocation.Values (evaluation before.setting)
      (evaluation before.setting)) : before.KeepsResult after evaluation := by
  obtain ⟨houtcome, hworld⟩ := hmoved.run _ _ hredefines.worlds
  exact ⟨hsame, hsame ▸ houtcome, hsame ▸ hworld⟩

theorem node {node : Node} (hunindexed : name ∉ node.indexed)
    (hwithin : node.Within (before.world.movedTo after.world)) {record : Option RecordRef}
    (hrecord : ∀ ref ∈ record, before.world.pool.Holds ref) :
    before.KeepsResult after fun setting => node.evaluate setting record := by
  have hcurrent : Currently (before.world.movedTo after.world) record :=
    fun ref href => (before.world.covers_movedTo after.world).ref (hrecord ref href)
  refine hredefines.keepsResult (Node.evaluate_of_sameBut hredefines.settings hunindexed record).same
    (Node.evaluate_relocate hredefines.moved ⟨hwithin.symm, Node.free_of_none rfl node⟩ _ _
      ⟨hcurrent.map_eq.symm, fun _ _ => Relocation.free_of_none rfl _⟩)

theorem closure {closure : Closure} (hunindexed : name ∉ closure.body.indexed)
    (hwithin : closure.value.Within (before.world.movedTo after.world)) {arguments : List Value}
    (harguments : ∀ argument ∈ arguments, name ∉ argument.indexed ∧
      argument.Within (before.world.movedTo after.world)) :
    before.KeepsResult after fun setting => closure.call setting arguments := by
  have hclosure := Value.Within.of_closure hwithin
  have hidentity : (before.world.movedTo after.world).relocation.mark closure.identity =
      closure.identity := by
    rw [Value.Within, Value.relocate, Value.closure.injEq] at hwithin
    exact hwithin.1
  refine hredefines.keepsResult (Closure.call_of_sameBut hredefines.settings hunindexed
    fun argument hargument => Value.unindexed_of_not_mem argument (harguments argument hargument).1)
    ((deeperAt_relocate hredefines.moved nestingLimit).call closure closure arguments arguments
      ⟨hidentity.symm, rfl, ⟨hclosure.body.symm, Node.free_of_none rfl _⟩,
        ⟨hclosure.record.map_eq.symm, fun _ _ => Relocation.free_of_none rfl _⟩⟩ ?_)
  exact List.forall₂_same.mpr fun argument hargument => (harguments argument hargument).2.values

end Patcher.Redefines

/-! ## Defining a name again -/

theorem Patcher.redefines_of_definitionLine {patcher after : Patcher} {mod : Mod}
    {lines : List String} {left expression : String}
    (hmarked : ∀ ref, patcher.world.pool.Holds ref →
      (patcher.world.pool.get ref).MarkedWithin patcher.world.marks)
    (hloaded : ∀ place ∈ patcher.repository.places, patcher.world.pool.Holds place)
    (hheld : ∀ own ∈ mod.records, patcher.world.pool.Holds own)
    (hwritten : ∀ statement ∈ (patcher.reset.start mod).statements lines,
      name ∉ statement.node.tableNames)
    (htarget : Target.ofText left = .ok ⟨name, none⟩)
    (hrun : (executeLine (left ++ ":=" ++ expression)).run (patcher.afterLines mod lines) =
      (.ok (), after))
    (hundisturbed : (patcher.afterLines mod lines).world.Undisturbed after.world) :
    (patcher.afterLines mod lines).Redefines name after := by
  have hgrounded := Patcher.grounded_afterLines hmarked mod lines
  have hrules := Nat.zero_le patcher.world.pool.records.size
  obtain ⟨hobeys, -⟩ := afterLines_leads hrules mod lines [] (Rules.free_permits _ _)
  obtain ⟨-, hstart⟩ := afterLines_leads hrules mod [] lines (Rules.free_permits _ _)
  have hline : (patcher.afterLines mod lines).LeadsUnder Rules.free ((executeLine
      (left ++ ":=" ++ expression)).run (patcher.afterLines mod lines)).2 :=
    (executeLine_leads hobeys fun _ _ _ _ => trivial).1
  have hgrown := (staysTo_executeLine (left ++ ":=" ++ expression)
    (patcher.afterLines mod lines)).grown
  obtain ⟨value, hvalue⟩ := exists_of_definitionLine htarget hrun
  rw [hrun] at hline hgrown
  constructor
  case settings =>
    exact {
      repository := hline.repository
      tables := by rw [Patcher.setting, hvalue]; rfl
      definitions := fun other hother => by
        rw [Patcher.setting, hvalue, Environment.lookup?_define, if_neg hother.symm]
        rfl
      unindexed := executeLines_unindexed Environment.All.empty hwritten 1 0 }
  case moved =>
    refine ⟨(hgrounded.within_movedTo after.world).environment.environments, ?_⟩
    refine (Repository.relocate_eq fun place hplace => ?_).symm
    have hrepository : (patcher.afterLines mod lines).repository = patcher.repository :=
      hstart.repository
    obtain ⟨moves, htrail, -⟩ := hstart.world
    refine (World.covers_movedTo _ after.world).ref (htrail.onward.retains.holds place ?_)
    exact hloaded place (hrepository ▸ hplace)
  case worlds => exact hundisturbed.worlds hgrounded (afterLines_ownHeld hheld lines) hgrown.marks

/-- Defining a name again never changes the meaning of an earlier line.  Let no line have the name
in front of an index, and let a further line define it without any effect but new records and new
marks.  Then every table entry is still there and every other definition is still as it was, and
this evaluates to the same as before: the expression of a table entry for every record, a closure in
a definition for all values there have been, and every expression in a line for every record. -/
theorem redefinition_keeps_results {patcher after : Patcher} {mod : Mod} {lines : List String}
    {left expression : String}
    (hmarked : ∀ ref, patcher.world.pool.Holds ref →
      (patcher.world.pool.get ref).MarkedWithin patcher.world.marks)
    (hloaded : ∀ place ∈ patcher.repository.places, patcher.world.pool.Holds place)
    (hheld : ∀ own ∈ mod.records, patcher.world.pool.Holds own)
    (hwritten : ∀ statement ∈ (patcher.reset.start mod).statements lines,
      name ∉ statement.node.tableNames)
    (htarget : Target.ofText left = .ok ⟨name, none⟩)
    (hrun : (executeLine (left ++ ":=" ++ expression)).run (patcher.afterLines mod lines) =
      (.ok (), after))
    (hundisturbed : (patcher.afterLines mod lines).world.Undisturbed after.world) :
    let before := patcher.afterLines mod lines
    (∀ table key node, before.environment.tableEntry table key = .ok node →
      after.environment.tableEntry table key = .ok node ∧
        ∀ record, (∀ ref ∈ record, before.world.pool.Holds ref) →
          before.KeepsResult after fun setting => node.evaluate setting record) ∧
    (∀ other ≠ name, after.environment.lookup? other = before.environment.lookup? other) ∧
    (∀ other value, before.environment.lookup? other = some value →
      ∀ closure ∈ value.closures, ∀ arguments,
        (∀ argument ∈ arguments, name ∉ argument.indexed ∧
          argument.Within (before.world.movedTo after.world)) →
        before.KeepsResult after fun setting => closure.call setting arguments) ∧
    ∀ statement ∈ (patcher.reset.start mod).statements lines,
      ∀ node ∈ statement.node.expressions, ∀ record,
        (∀ ref ∈ record, before.world.pool.Holds ref) →
          before.KeepsResult after fun setting => node.evaluate setting record := by
  intro before
  have hredefines : before.Redefines name after :=
    Patcher.redefines_of_definitionLine hmarked hloaded hheld hwritten htarget hrun hundisturbed
  have hunindexed := hredefines.settings.unindexed
  have hgrounded : before.Grounded := Patcher.grounded_afterLines hmarked mod lines
  have hwithin := (hgrounded.within_movedTo after.world).environment
  refine ⟨fun table key node hentry => ⟨?_, fun record hrecord => ?_⟩,
    fun other hother => hredefines.settings.definitions other hother,
    fun other value hlookup closure hclosure arguments harguments => ?_,
    fun statement hstatement inner hinner record hrecord => ?_⟩
  · unfold Environment.tableEntry
    rw [show after.environment.tables = before.environment.tables from hredefines.settings.tables]
    exact hentry
  · exact hredefines.node (hunindexed.of_tableEntry hentry) (hwithin.of_tableEntry hentry) hrecord
  · have hboth := value.closures_settled (hunindexed.of_lookup? hlookup)
      (hwithin.of_lookup? hlookup) closure hclosure
    exact hredefines.closure hboth.1 hboth.2 harguments
  · have hcovers : (executeLines 1 0 lines (patcher.reset.start mod)).2.CoveredBy
        (before.world.movedTo after.world) := before.world.covers_movedTo after.world
    have hstart : (patcher.reset.start mod).Within (before.world.movedTo after.world) :=
      Patcher.grounded_afterLines hmarked mod [] _
        ((staysTo_executeLines 1 0 lines (patcher.reset.start mod)).grown.covers hcovers)
    have hboth := statement.node.expressions_settled
      (statements_unindexed Environment.All.empty hwritten hstatement)
      (statements_within hstart hcovers hstatement) inner hinner
    exact hredefines.node hboth.1 hboth.2 hrecord

/-- Lines with a table entry and a lambda that a limit stands in. -/
def limiting : List String :=
  ["limit := 5", "costs[\"sword\"] := limit * 2", "capped := x => x + limit"]

/-- The entry keeps the limit that it was read with. -/
theorem redefinition_keeps_limiting :
    let before := ({} : Patcher).afterLines ⟨"forge", [], [], [], []⟩ limiting
    ∃ after, (executeLine ("limit " ++ ":=" ++ " 7")).run before = (.ok (), after) ∧
      after.environment.lookup? "limit" = some (.integer 7) ∧
      ∃ node, after.environment.tableEntry "costs" "sword" = .ok node ∧
        before.KeepsResult after fun setting => node.evaluate setting none := by
  intro before
  have htarget : Target.ofText "limit " = .ok ⟨"limit", none⟩ := by rfl
  have hnode : ∀ names, Node.ofText names (Text.trim " 7") = .ok (.literal (.integer 7)) :=
    fun _ => rfl
  have hdefined : ∀ before : Patcher, ∃ after, (executeLine ("limit " ++ ":=" ++ " 7")).run before =
      (.ok (), after) ∧ after.environment.lookup? "limit" = some (.integer 7) ∧
        before.world.Undisturbed after.world := fun before =>
    ⟨_, run_definition htarget (hnode before.names), Environment.lookup?_define_self _ _ _,
      World.Undisturbed.refl _⟩
  obtain ⟨after, hrun, hlimit, hundisturbed⟩ := hdefined before
  have hsome : (before.environment.tableEntry "costs" "sword").toOption.isSome = true := by
    decide +kernel
  obtain ⟨node, hentry⟩ := Option.isSome_iff_exists.mp hsome
  have hempty : ∀ ref, ({} : Patcher).world.pool.Holds ref →
      (({} : Patcher).world.pool.get ref).MarkedWithin ({} : Patcher).world.marks :=
    fun ref hheld => absurd hheld (Nat.not_lt_zero ref.index)
  have hwritten : ∀ statement ∈ (Patcher.start (Patcher.reset {}) ⟨"forge", [], [], [], []⟩).statements
      limiting, "limit" ∉ statement.node.tableNames := by
    decide +kernel
  obtain ⟨hentries, -⟩ := redefinition_keeps_results hempty (List.forall_mem_nil _)
    (List.forall_mem_nil _) hwritten htarget hrun hundisturbed
  obtain ⟨hkept, hkeeps⟩ := hentries "costs" "sword" node (eq_ok_of_toOption hentry)
  exact ⟨after, hrun, hlimit, node, hkept, hkeeps none nofun⟩

end Patchwork
