import Patchwork.Proofs.Environments
import Patchwork.Proofs.Evaluation.Outcomes
import Patchwork.Proofs.Expression.Closure
import Patchwork.Proofs.Provenance.Groups

/-!
# Rules for expressions

Rules say which procedures the expressions of a run may call, and from which place on the
records of its groups lie.  An expression that obeys the rules also has nothing in it that
reading would reject: every call has an accepted argument count, and what stands on the
left of an arrow produces a group.  Values, and so definitions and table entries, obey the
rules if the expressions and groups in them do.
-/

namespace Patchwork

/-- What the expressions of a run may do. -/
structure Rules where
  /-- The first place that a record of a group may have. -/
  first : Nat := 0
  /-- Whether a procedure may be called. -/
  permits : Procedure → Prop := fun _ => True

namespace Rules

/-- The records of a group lie where they may. -/
def Admits (rules : Rules) (group : Group) : Prop :=
  ∀ ref ∈ group.records, rules.first ≤ ref.index

theorem Admits.sublist {rules : Rules} {group : Group} (hadmits : rules.Admits group)
    {members : List Member} (hmembers : members.Sublist group.members) :
    rules.Admits ⟨members⟩ :=
  fun ref href => hadmits ref ((hmembers.map Member.record).subset href)

/-- The rules under which every procedure may be called on every record. -/
def free : Rules := {}

end Rules

/-! ## Obeying -/

mutual

/-- A value with no groups and expressions in it but those that obey the rules. -/
def Value.Obeys (rules : Rules) : Value → Prop
  | .array items => AllValuesObey rules items
  | .group group => rules.Admits group
  | .closure _ _ body _ => body.Obeys rules
  | _ => True

/-- Values that all obey the rules. -/
def AllValuesObey (rules : Rules) : List Value → Prop
  | [] => True
  | item :: rest => item.Obeys rules ∧ AllValuesObey rules rest

/-- An expression that obeys the rules, with everything in the values it was read with. -/
def Node.Obeys (rules : Rules) : Node → Prop
  | .literal value => value.Obeys rules
  | .parameter _ => True
  | .unary _ operand => operand.Obeys rules
  | .binary _ left right => left.Obeys rules ∧ right.Obeys rules
  | .call function arguments =>
    function.arity.Accepts arguments.length ∧ AllObey rules arguments
  | .test predicate arguments =>
    predicate.arity.Accepts arguments.length ∧ AllObey rules arguments
  | .array elements => AllObey rules elements
  | .tableName _ => True
  | .index target position => target.Obeys rules ∧ position.Obeys rules
  | .group group => rules.Admits group
  | .procedure procedure arguments _ =>
    rules.permits procedure ∧ procedure.arity.Accepts arguments.length ∧ AllObey rules arguments
  | .pipe left procedure arguments _ =>
    left.producesGroup = true ∧ left.Obeys rules ∧ rules.permits procedure ∧
      procedure.arity.Accepts arguments.length ∧ AllObey rules arguments
  | .lambda _ body => body.Obeys rules
  | .command command arguments =>
    command.arity.Accepts arguments.length ∧ AllObey rules arguments

/-- Expressions that all obey the rules. -/
def AllObey (rules : Rules) : List Node → Prop
  | [] => True
  | node :: rest => node.Obeys rules ∧ AllObey rules rest

end

section

variable {rules : Rules}

theorem allValuesObey_iff {items : List Value} :
    AllValuesObey rules items ↔ ∀ item ∈ items, item.Obeys rules := by
  induction items with
  | nil => exact ⟨fun _ _ hitem => absurd hitem List.not_mem_nil, fun _ => trivial⟩
  | cons item rest ih => rw [AllValuesObey, ih, List.forall_mem_cons]

mutual

/-- Data have nothing in them that could break a rule. -/
theorem Value.Data.obeys {value : Value} (hdata : value.Data) : value.Obeys rules := by
  cases value with
  | array items => exact AllData.obeys hdata
  | group group => exact hdata.elim
  | closure => exact hdata.elim
  | _ => trivial

theorem AllData.obeys {items : List Value} (hdata : AllData items) :
    AllValuesObey rules items := by
  cases items with
  | nil => trivial
  | cons item rest => exact ⟨hdata.1.obeys, hdata.2.obeys⟩

end

theorem Value.Written.obeys {value : Value} (hwritten : value.Written) : value.Obeys rules := by
  cases hwritten <;> trivial

end

/-- All definitions and table entries obey the rules. -/
def Environment.Obeys (environment : Environment) (rules : Rules) : Prop :=
  environment.All (Value.Obeys rules) (Node.Obeys rules)

/-! ## Reading -/

mutual

/-- The procedures an expression calls as it is written. -/
def Node.procedures : Node → List Procedure
  | .unary _ operand => operand.procedures
  | .binary _ left right => left.procedures ++ right.procedures
  | .call _ arguments => allProcedures arguments
  | .test _ arguments => allProcedures arguments
  | .array elements => allProcedures elements
  | .index target position => target.procedures ++ position.procedures
  | .procedure procedure arguments _ => procedure :: allProcedures arguments
  | .pipe left procedure arguments _ => left.procedures ++ procedure :: allProcedures arguments
  | .lambda _ body => body.procedures
  | .command _ arguments => allProcedures arguments
  | _ => []

/-- The procedures that some expressions call as they are written. -/
def allProcedures : List Node → List Procedure
  | [] => []
  | node :: rest => node.procedures ++ allProcedures rest

end

/-- Every procedure an expression calls as it is written may be called. -/
def Node.Permitted (rules : Rules) (node : Node) : Prop :=
  ∀ procedure ∈ node.procedures, rules.permits procedure

section

variable {rules : Rules} {environment : Environment}

theorem allObey_of_permitted {nodes : List Node}
    (hpermits : ∀ procedure ∈ allProcedures nodes, rules.permits procedure)
    (hnodes : ∀ node ∈ nodes, node.Permitted rules → node.Obeys rules) :
    AllObey rules nodes := by
  induction nodes with
  | nil => trivial
  | cons node rest ih =>
    obtain ⟨hnode, hrest⟩ := List.forall_mem_append.mp hpermits
    exact ⟨hnodes node List.mem_cons_self hnode,
      ih hrest fun other hother => hnodes other (List.mem_cons_of_mem _ hother)⟩

/-- An expression obeys the rules if the procedures written in it are permitted and what is
defined obeys them. -/
theorem obeys_readingClosed (henvironment : environment.Obeys rules) :
    ReadingClosed environment fun _ node => node.Permitted rules → node.Obeys rules where
  literal hwritten _ := hwritten.obeys
  definition hlookup _ := henvironment.of_lookup? hlookup
  group hlookup _ := henvironment.of_lookup? hlookup
  parameter _ _ := trivial
  tableName _ _ := trivial
  unary _ hoperand := hoperand
  binary _ hleft hright hpermits := by
    obtain ⟨hfirst, hsecond⟩ := List.forall_mem_append.mp hpermits
    exact ⟨hleft hfirst, hright hsecond⟩
  index htarget hposition hpermits := by
    obtain ⟨hfirst, hsecond⟩ := List.forall_mem_append.mp hpermits
    exact ⟨htarget hfirst, hposition hsecond⟩
  array helements hpermits := allObey_of_permitted hpermits helements
  lambda _ hbody := hbody
  call haccepts harguments hpermits := ⟨haccepts, allObey_of_permitted hpermits harguments⟩
  test haccepts harguments hpermits := ⟨haccepts, allObey_of_permitted hpermits harguments⟩
  procedure haccepts harguments hpermits := by
    obtain ⟨hprocedure, hrest⟩ := List.forall_mem_cons.mp hpermits
    exact ⟨hprocedure, haccepts, allObey_of_permitted hrest harguments⟩
  pairwise _ hprocedure := hprocedure
  pipe hgroup hleft hprocedure hpermits := by
    obtain ⟨hfirst, hsecond⟩ := List.forall_mem_append.mp hpermits
    exact ⟨hgroup, hleft hfirst, hprocedure hsecond⟩
  command haccepts harguments hpermits := ⟨haccepts, allObey_of_permitted hpermits harguments⟩

end

/-! ## Groups under rules -/

mutual

/-- The records of the groups in a value lie where its rules say. -/
theorem Value.Obeys.groups {rules : Rules} {value : Value} (hobeys : value.Obeys rules) :
    ∀ group ∈ value.groups, rules.Admits group := by
  cases value with
  | array items => exact AllValuesObey.groups hobeys
  | group group => exact List.forall_mem_singleton.mpr hobeys
  | closure parameters captured body source =>
    have hbody : body.Obeys rules := hobeys
    exact hbody.groups
  | _ => exact fun _ hgroup => nomatch hgroup

theorem AllValuesObey.groups {rules : Rules} {items : List Value}
    (hobeys : AllValuesObey rules items) : ∀ group ∈ itemGroups items, rules.Admits group := by
  cases items with
  | nil => exact fun _ hgroup => nomatch hgroup
  | cons item rest => exact List.forall_mem_append.mpr ⟨hobeys.1.groups, hobeys.2.groups⟩

theorem Node.Obeys.groups {rules : Rules} {node : Node} (hobeys : node.Obeys rules) :
    ∀ group ∈ node.groups, rules.Admits group := by
  cases node with
  | literal value => exact Value.Obeys.groups hobeys
  | unary operator operand =>
    have hoperand : operand.Obeys rules := hobeys
    exact hoperand.groups
  | binary operator left right =>
    exact List.forall_mem_append.mpr ⟨hobeys.1.groups, hobeys.2.groups⟩
  | call function arguments | test predicate arguments | command command arguments =>
    exact AllObey.groups hobeys.2
  | array elements => exact AllObey.groups hobeys
  | index target position => exact List.forall_mem_append.mpr ⟨hobeys.1.groups, hobeys.2.groups⟩
  | group group => exact List.forall_mem_singleton.mpr hobeys
  | procedure procedure arguments pairwise => exact AllObey.groups hobeys.2.2
  | pipe left procedure arguments pairwise =>
    obtain ⟨-, hleft, -, -, harguments⟩ := hobeys
    exact List.forall_mem_append.mpr ⟨hleft.groups, harguments.groups⟩
  | lambda parameters body =>
    have hbody : body.Obeys rules := hobeys
    exact hbody.groups
  | _ => exact fun _ hgroup => nomatch hgroup

theorem AllObey.groups {rules : Rules} {nodes : List Node} (hobeys : AllObey rules nodes) :
    ∀ group ∈ nodeGroups nodes, rules.Admits group := by
  cases nodes with
  | nil => exact fun _ hgroup => nomatch hgroup
  | cons node rest => exact List.forall_mem_append.mpr ⟨hobeys.1.groups, hobeys.2.groups⟩

end

theorem Environment.Obeys.groups {rules : Rules} {environment : Environment}
    (hobeys : environment.Obeys rules) : ∀ group ∈ environment.groups, rules.Admits group := by
  intro group hgroup
  rcases List.mem_append.mp hgroup with hgroup | hgroup
  · obtain ⟨entry, hentry, hgroup⟩ := List.mem_flatMap.mp hgroup
    exact (hobeys.definitions entry hentry).groups group hgroup
  · obtain ⟨table, htable, hgroup⟩ := List.mem_flatMap.mp hgroup
    obtain ⟨entry, hentry, hgroup⟩ := List.mem_flatMap.mp hgroup
    exact (hobeys.tables table htable entry hentry).groups group hgroup

end Patchwork
