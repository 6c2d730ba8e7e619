import Patchwork.Patcher
import Patchwork.Proofs.Environments
import Patchwork.Proofs.Expression.Closure

/-!
# Groups in values and expressions

Record groups stand in values, in the expressions that values and table entries are
made of, and in the definitions and tables of a run.  Reading a line puts only groups
that are defined already into the expressions it makes.
-/

namespace Patchwork

/-! ## Groups in values, expressions and environments -/

mutual

/-- The record groups in a value. -/
def Value.groups : Value → List Group
  | .array items => itemGroups items
  | .group group => [group]
  | .closure _ _ body _ => body.groups
  | _ => []

/-- The record groups in the elements of an array. -/
def itemGroups : List Value → List Group
  | [] => []
  | item :: rest => item.groups ++ itemGroups rest

/-- The record groups in an expression. -/
def Node.groups : Node → List Group
  | .literal value => value.groups
  | .unary _ operand => operand.groups
  | .binary _ left right => left.groups ++ right.groups
  | .call _ arguments => nodeGroups arguments
  | .test _ arguments => nodeGroups arguments
  | .array elements => nodeGroups elements
  | .index target position => target.groups ++ position.groups
  | .group group => [group]
  | .procedure _ arguments _ => nodeGroups arguments
  | .pipe left _ arguments _ => left.groups ++ nodeGroups arguments
  | .lambda _ body => body.groups
  | .command _ arguments => nodeGroups arguments
  | .parameter _ => []
  | .tableName _ => []

/-- The record groups in a list of expressions. -/
def nodeGroups : List Node → List Group
  | [] => []
  | node :: rest => node.groups ++ nodeGroups rest

end

theorem itemGroups_eq (items : List Value) : itemGroups items = items.flatMap Value.groups := by
  induction items with
  | nil => rfl
  | cons item rest ih => rw [itemGroups, ih, List.flatMap_cons]

namespace Environment

/-- The record groups held in definitions and inside table entries. -/
def groups (environment : Environment) : List Group :=
  environment.definitions.flatMap (fun entry => entry.2.groups) ++
    environment.tables.flatMap fun table => table.2.flatMap fun entry => entry.2.groups

variable {environment : Environment} {held : List Group}

theorem groups_subset_iff :
    environment.groups ⊆ held ↔ environment.All (·.groups ⊆ held) (·.groups ⊆ held) := by
  simp only [groups, List.subset_def, List.mem_append, List.mem_flatMap]
  constructor
  · intro hall
    exact ⟨fun entry hentry _ hgroup => hall (Or.inl ⟨entry, hentry, hgroup⟩),
      fun table htable entry hentry _ hgroup =>
        hall (Or.inr ⟨table, htable, entry, hentry, hgroup⟩)⟩
  · rintro ⟨hdefinitions, htables⟩ group (⟨entry, hentry, hgroup⟩ | hgroup)
    · exact hdefinitions entry hentry hgroup
    · obtain ⟨table, htable, entry, hentry, hgroup⟩ := hgroup
      exact htables table htable entry hentry hgroup

theorem groups_all (environment : Environment) :
    environment.All (·.groups ⊆ environment.groups) (·.groups ⊆ environment.groups) :=
  groups_subset_iff.mp (List.Subset.refl _)

theorem groups_of_lookup? {name : String} {value : Value}
    (hlookup : environment.lookup? name = some value) : value.groups ⊆ environment.groups :=
  (groups_all environment).of_lookup? hlookup

theorem groups_of_group {name : String} {group : Group}
    (hgroup : environment.group name = .ok group) : group ∈ environment.groups :=
  (groups_all environment).of_group hgroup (List.mem_singleton_self _)

theorem groups_of_tableEntry {table key : String} {node : Node}
    (hentry : environment.tableEntry table key = .ok node) : node.groups ⊆ environment.groups :=
  (groups_all environment).of_tableEntry hentry

theorem groups_tableOrDefinition (name : String) :
    (environment.tableOrDefinition name).groups ⊆ environment.groups :=
  (groups_all environment).tableOrDefinition (fun _ => List.nil_subset _) name

theorem groups_define (henvironment : environment.groups ⊆ held) {value : Value}
    (hvalue : value.groups ⊆ held) (name : String) :
    (environment.define name value).groups ⊆ held :=
  groups_subset_iff.mpr ((groups_subset_iff.mp henvironment).define hvalue name)

theorem groups_setTableEntry (henvironment : environment.groups ⊆ held) {node : Node}
    (hnode : node.groups ⊆ held) (table key : String) :
    (environment.setTableEntry table key node).groups ⊆ held :=
  groups_subset_iff.mpr ((groups_subset_iff.mp henvironment).setTableEntry hnode table key)

end Environment

/-! ## Reading -/

theorem nodeGroups_eq (nodes : List Node) : nodeGroups nodes = nodes.flatMap Node.groups := by
  induction nodes with
  | nil => rfl
  | cons node rest ih => rw [nodeGroups, ih, List.flatMap_cons]

theorem nodeGroups_subset {nodes : List Node} {held : List Group}
    (hnodes : ∀ node ∈ nodes, node.groups ⊆ held) : nodeGroups nodes ⊆ held := by
  rw [nodeGroups_eq]
  intro group hgroup
  obtain ⟨node, hnode, hinner⟩ := List.mem_flatMap.mp hgroup
  exact hnodes node hnode hinner

/-- Reading puts no groups into an expression but those that are defined. -/
theorem groups_readingClosed (environment : Environment) :
    ReadingClosed environment fun _ node => node.groups ⊆ environment.groups where
  literal hwritten := by cases hwritten <;> exact List.nil_subset _
  definition hlookup := Environment.groups_of_lookup? hlookup
  group hlookup := Environment.groups_of_lookup? hlookup
  parameter _ := List.nil_subset _
  tableName _ := List.nil_subset _
  unary _ hoperand := hoperand
  binary _ hleft hright := List.append_subset.mpr ⟨hleft, hright⟩
  index htarget hposition := List.append_subset.mpr ⟨htarget, hposition⟩
  array helements := nodeGroups_subset helements
  lambda _ hbody := hbody
  call _ harguments := nodeGroups_subset harguments
  test _ harguments := nodeGroups_subset harguments
  procedure _ harguments := nodeGroups_subset harguments
  pairwise _ harguments := harguments
  pipe _ hleft hright := List.append_subset.mpr ⟨hleft, hright⟩
  command _ harguments := nodeGroups_subset harguments

namespace Statement

/-- The record groups in the expressions of a statement. -/
def groups : Statement → List Group
  | .define _ expression => expression.groups
  | .query _ found => found.condition.groups
  | .extract _ _ condition => condition.groups
  | .invoke expression => expression.groups

/-- A line is read with no groups but those that are defined. -/
theorem groups_ofLine {names : Names} {line : String} {statement : Statement}
    (hread : ofLine names line = .ok statement) :
    statement.groups ⊆ names.environment.groups := by
  have hnode := holds_ofLine (groups_readingClosed names.environment) hread
  cases statement <;> exact hnode

end Statement

end Patchwork
