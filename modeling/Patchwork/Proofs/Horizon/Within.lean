import Patchwork.Proofs.Relocation.Worlds

/-!
# Within a horizon

A horizon is some place and some mark with a relocation that leaves everything up to them
alone.  What the relocation leaves alone is within the horizon: it has no references to
records and no marks beyond.  Operators and conversions do not lead beyond a horizon.
-/

namespace Patchwork

open Agree

/-- A place and a mark, with a relocation that moves only places from there on and marks
beyond. -/
structure Horizon where
  relocation : Relocation
  places : Nat
  marks : Nat
  ref_eq : ∀ ref : RecordRef, ref.index < places → relocation.ref ref = ref
  mark_eq : ∀ given ≤ marks, relocation.mark given = given
  loaded_eq : relocation.loaded = []

/-- The horizon whose relocation moves nothing. -/
def Horizon.unmoved : Horizon where
  relocation := {
    loaded := []
    pristine := {}
    ref := id
    mark := id
    ref_injective := Function.injective_id
    mark_injective := Function.injective_id
    mark_zero := rfl }
  places := 0
  marks := 0
  ref_eq _ _ := rfl
  mark_eq _ _ := rfl
  loaded_eq := rfl

/-! ## What is within -/

section

variable (horizon : Horizon)

/-- A place that the relocation of a horizon leaves alone. -/
def RecordRef.Within (ref : RecordRef) : Prop :=
  horizon.relocation.ref ref = ref

/-- A current record within a horizon, or none. -/
def Currently (current : Option RecordRef) : Prop :=
  ∀ ref ∈ current, ref.Within horizon

/-- A value without places and marks beyond a horizon. -/
def Value.Within (value : Value) : Prop :=
  value.relocate horizon.relocation = value

/-- An expression without places and marks beyond a horizon. -/
def Node.Within (node : Node) : Prop :=
  node.relocate horizon.relocation = node

/-- A group whose records are at places within a horizon. -/
def Group.Within (group : Group) : Prop :=
  ∀ ref ∈ group.records, ref.Within horizon

/-- A closure without places and marks beyond a horizon. -/
structure Closure.Within (closure : Closure) : Prop where
  body : closure.body.Within horizon
  record : Currently horizon closure.record

/-- A plain value without marks beyond a horizon. -/
def Plain.Within (plain : Plain) : Prop :=
  plain.remark horizon.relocation.mark = plain

/-- A record without marks beyond a horizon. -/
def Record.Within (record : Record) : Prop :=
  record.remark horizon.relocation.mark = record

/-- Labels that tell no places beyond a horizon apart. -/
def Labels.Within (labels : Labels) : Prop :=
  ∀ ref, labels (horizon.relocation.ref ref) = labels ref

end

variable {horizon : Horizon}

theorem Plain.within_unmoved (plain : Plain) : plain.Within Horizon.unmoved :=
  plain.remark_id

theorem Record.within_unmoved (record : Record) : record.Within Horizon.unmoved :=
  record.remark_id

/-! ## Nothing is loaded -/

section

variable {relocation : Relocation}

theorem Relocation.free_of_none (hnone : relocation.loaded = []) (ref : RecordRef) :
    relocation.Free ref := by
  rw [Relocation.Free, hnone]
  exact List.not_mem_nil

theorem Group.free_of_none (hnone : relocation.loaded = []) (group : Group) :
    group.Free relocation :=
  fun member _ => Relocation.free_of_none hnone member.record

mutual

theorem Value.free_of_none (hnone : relocation.loaded = []) (value : Value) :
    value.Free relocation := by
  cases value with
  | array items => exact freeItems_of_none hnone items
  | group group => exact group.free_of_none hnone
  | closure identity parameter body record =>
    exact ⟨Node.free_of_none hnone body, fun ref _ => Relocation.free_of_none hnone ref⟩
  | _ => trivial

theorem Node.free_of_none (hnone : relocation.loaded = []) (node : Node) :
    node.Free relocation := by
  cases node with
  | literal value => exact Value.free_of_none hnone value
  | unary operator operand => exact Node.free_of_none hnone operand
  | binary operator left right =>
    exact ⟨Node.free_of_none hnone left, Node.free_of_none hnone right⟩
  | call function arguments => exact freeNodes_of_none hnone arguments
  | test predicate arguments => exact freeNodes_of_none hnone arguments
  | array elements => exact freeNodes_of_none hnone elements
  | index target position =>
    exact ⟨Node.free_of_none hnone target, Node.free_of_none hnone position⟩
  | group group => exact group.free_of_none hnone
  | procedure procedure arguments pairwise => exact freeNodes_of_none hnone arguments
  | pipe left procedure arguments pairwise =>
    exact ⟨Node.free_of_none hnone left, freeNodes_of_none hnone arguments⟩
  | lambda parameter body => exact Node.free_of_none hnone body
  | command command arguments => exact freeNodes_of_none hnone arguments
  | _ => trivial

theorem freeItems_of_none (hnone : relocation.loaded = []) (items : List Value) :
    freeItems relocation items := by
  cases items with
  | nil => trivial
  | cons item rest => exact ⟨Value.free_of_none hnone item, freeItems_of_none hnone rest⟩

theorem freeNodes_of_none (hnone : relocation.loaded = []) (nodes : List Node) :
    freeNodes relocation nodes := by
  cases nodes with
  | nil => trivial
  | cons node rest => exact ⟨Node.free_of_none hnone node, freeNodes_of_none hnone rest⟩

end

end

/-! ## Parts of what is within -/

theorem map_eq_self_iff {Item : Type} {change : Item → Item} {items : List Item} :
    items.map change = items ↔ ∀ item ∈ items, change item = item := by
  have hidentity := @List.map_inj_left Item Item items change id
  rwa [List.map_id] at hidentity

theorem currently_none : Currently horizon none :=
  fun _ hmem => nomatch hmem

theorem Currently.map_eq {current : Option RecordRef} (hcurrent : Currently horizon current) :
    current.map horizon.relocation.ref = current := by
  cases current with
  | none => rfl
  | some ref => exact congrArg some (hcurrent ref rfl)

theorem Group.within_iff {group : Group} :
    group.Within horizon ↔ group.relocate horizon.relocation = group := by
  obtain ⟨members⟩ := group
  rw [relocate, Group.mk.injEq, map_eq_self_iff, Within, records, List.forall_mem_map]
  refine forall₂_congr fun member _ => ?_
  obtain ⟨mod, ref⟩ := member
  simp [RecordRef.Within]

theorem Group.Within.sublist {group : Group} (hgroup : group.Within horizon)
    {members : List Member} (hmembers : members.Sublist group.members) :
    Group.Within horizon ⟨members⟩ :=
  fun ref href => hgroup ref ((hmembers.map Member.record).subset href)

namespace Value

theorem within_array {items : List Value} :
    (Value.array items).Within horizon ↔ ∀ item ∈ items, item.Within horizon := by
  rw [Within, relocate, Value.array.injEq, relocateItems_eq_map, map_eq_self_iff]
  rfl

theorem within_group {group : Group} :
    (Value.group group).Within horizon ↔ group.Within horizon := by
  rw [Within, relocate, Value.group.injEq, Group.within_iff]

theorem within_closure {identity : Nat} {parameter : String} {body : Node}
    {record : Option RecordRef} (hidentity : identity ≤ horizon.marks)
    (hbody : body.Within horizon) (hrecord : Currently horizon record) :
    (Value.closure identity parameter body record).Within horizon := by
  rw [Within, relocate, horizon.mark_eq identity hidentity, hbody, hrecord.map_eq]

theorem within_nan {mark : Nat} (hmark : mark ≤ horizon.marks) :
    (Value.float (.nan mark)).Within horizon := by
  rw [Within, relocate, Binary64.remark, horizon.mark_eq mark hmark]

theorem Within.of_closure {identity : Nat} {parameter : String} {body : Node}
    {record : Option RecordRef}
    (hclosure : (Value.closure identity parameter body record).Within horizon) :
    (Closure.mk identity parameter body record).Within horizon := by
  rw [Within, relocate, Value.closure.injEq] at hclosure
  refine ⟨hclosure.2.2.1, fun ref href => ?_⟩
  have hrecord := hclosure.2.2.2
  cases href
  exact Option.some.inj hrecord

/-- A value within a horizon corresponds to itself. -/
theorem Within.values {value : Value} (hvalue : value.Within horizon) :
    horizon.relocation.Values value value :=
  ⟨hvalue.symm, value.free_of_none horizon.loaded_eq⟩

end Value

theorem nodes_within_iff {nodes : List Node} :
    relocateNodes horizon.relocation nodes = nodes ↔ ∀ node ∈ nodes, node.Within horizon := by
  rw [relocateNodes_eq_map, map_eq_self_iff]
  rfl

namespace Node

theorem within_literal {value : Value} :
    (Node.literal value).Within horizon ↔ value.Within horizon := by
  rw [Within, relocate, Node.literal.injEq]
  rfl

theorem within_unary {operator : UnaryOperator} {operand : Node} :
    (Node.unary operator operand).Within horizon ↔ operand.Within horizon := by
  simp only [Within, relocate, Node.unary.injEq, true_and]

theorem within_binary {operator : BinaryOperator} {left right : Node} :
    (Node.binary operator left right).Within horizon ↔
      left.Within horizon ∧ right.Within horizon := by
  simp only [Within, relocate, Node.binary.injEq, true_and]

theorem within_call {function : Function} {arguments : List Node} :
    (Node.call function arguments).Within horizon ↔
      ∀ argument ∈ arguments, argument.Within horizon := by
  rw [← nodes_within_iff]
  simp only [Within, relocate, Node.call.injEq, true_and]

theorem within_test {predicate : Predicate} {arguments : List Node} :
    (Node.test predicate arguments).Within horizon ↔
      ∀ argument ∈ arguments, argument.Within horizon := by
  rw [← nodes_within_iff]
  simp only [Within, relocate, Node.test.injEq, true_and]

theorem within_array {elements : List Node} :
    (Node.array elements).Within horizon ↔ ∀ element ∈ elements, element.Within horizon := by
  rw [← nodes_within_iff]
  simp only [Within, relocate, Node.array.injEq]

theorem within_index {target position : Node} :
    (Node.index target position).Within horizon ↔
      target.Within horizon ∧ position.Within horizon := by
  simp only [Within, relocate, Node.index.injEq]

theorem within_group {group : Group} :
    (Node.group group).Within horizon ↔ group.Within horizon := by
  rw [Within, relocate, Node.group.injEq, Group.within_iff]

theorem within_procedure {procedure : Procedure} {arguments : List Node} {pairwise : Bool} :
    (Node.procedure procedure arguments pairwise).Within horizon ↔
      ∀ argument ∈ arguments, argument.Within horizon := by
  rw [← nodes_within_iff]
  simp only [Within, relocate, Node.procedure.injEq, true_and, and_true]

theorem within_pipe {left : Node} {procedure : Procedure} {arguments : List Node}
    {pairwise : Bool} :
    (Node.pipe left procedure arguments pairwise).Within horizon ↔
      left.Within horizon ∧ ∀ argument ∈ arguments, argument.Within horizon := by
  rw [← nodes_within_iff]
  simp only [Within, relocate, Node.pipe.injEq, true_and, and_true]

theorem within_lambda {parameter : String} {body : Node} :
    (Node.lambda parameter body).Within horizon ↔ body.Within horizon := by
  simp only [Within, relocate, Node.lambda.injEq, true_and]

theorem within_command {command : Command} {arguments : List Node} :
    (Node.command command arguments).Within horizon ↔
      ∀ argument ∈ arguments, argument.Within horizon := by
  rw [← nodes_within_iff]
  simp only [Within, relocate, Node.command.injEq, true_and]

end Node

/-! ## Nothing is moved -/

mutual

theorem Value.within_unmoved (value : Value) : value.Within Horizon.unmoved := by
  cases value with
  | float number => cases number <;> rfl
  | array items => exact Value.within_array.mpr (items_within_unmoved items)
  | group group => exact Value.within_group.mpr fun _ _ => rfl
  | closure identity parameter body record =>
    have hbody := Node.within_unmoved body
    rw [Value.Within, Value.relocate, hbody]
    cases record <;> rfl
  | _ => rfl

theorem Node.within_unmoved (node : Node) : node.Within Horizon.unmoved := by
  cases node with
  | literal value => exact Node.within_literal.mpr (Value.within_unmoved value)
  | unary operator operand => exact Node.within_unary.mpr (Node.within_unmoved operand)
  | binary operator left right =>
    exact Node.within_binary.mpr ⟨Node.within_unmoved left, Node.within_unmoved right⟩
  | call function arguments => exact Node.within_call.mpr (nodes_within_unmoved arguments)
  | test predicate arguments => exact Node.within_test.mpr (nodes_within_unmoved arguments)
  | array elements => exact Node.within_array.mpr (nodes_within_unmoved elements)
  | index target position =>
    exact Node.within_index.mpr ⟨Node.within_unmoved target, Node.within_unmoved position⟩
  | group group => exact Node.within_group.mpr fun _ _ => rfl
  | procedure procedure arguments pairwise =>
    exact Node.within_procedure.mpr (nodes_within_unmoved arguments)
  | pipe left procedure arguments pairwise =>
    exact Node.within_pipe.mpr ⟨Node.within_unmoved left, nodes_within_unmoved arguments⟩
  | lambda parameter body => exact Node.within_lambda.mpr (Node.within_unmoved body)
  | command command arguments => exact Node.within_command.mpr (nodes_within_unmoved arguments)
  | _ => rfl

theorem items_within_unmoved (items : List Value) :
    ∀ item ∈ items, item.Within Horizon.unmoved := by
  cases items with
  | nil => exact fun _ hitem => nomatch hitem
  | cons item rest =>
    exact List.forall_mem_cons.mpr ⟨Value.within_unmoved item, items_within_unmoved rest⟩

theorem nodes_within_unmoved (nodes : List Node) :
    ∀ node ∈ nodes, node.Within Horizon.unmoved := by
  cases nodes with
  | nil => exact fun _ hnode => nomatch hnode
  | cons node rest =>
    exact List.forall_mem_cons.mpr ⟨Node.within_unmoved node, nodes_within_unmoved rest⟩

end

/-! ## Computations without effects -/

/-- What a computation gives for what is within a horizon corresponds to itself. -/
theorem values_of_outcomes {Result : Type} {related : Result → Result → Prop}
    {outcome : Except Fault Result} {result : Result} (houtcomes : Outcomes related outcome outcome)
    (hresult : outcome = .ok result) : related result result := by
  subst hresult
  cases houtcomes with
  | ok hrelated => exact hrelated

namespace Value.Within

variable {labels : Labels} {value : Value}

theorem group (hvalue : value.Within horizon) {purpose : String} {group : Group}
    (hgroup : value.expectGroup labels purpose = .ok group) : group.Within horizon := by
  cases value <;> cases hgroup
  exact within_group.mp hvalue

theorem items (hvalue : value.Within horizon) {purpose : String} {items : List Value}
    (hitems : value.expectArray labels purpose = .ok items) :
    ∀ item ∈ items, item.Within horizon := by
  cases value <;> cases hitems
  exact within_array.mp hvalue

theorem closure (hvalue : value.Within horizon) {purpose : String} {closure : Closure}
    (hclosure : value.expectClosure labels purpose = .ok closure) : closure.Within horizon := by
  cases value <;> cases hclosure
  exact of_closure hvalue

theorem float (hvalue : value.Within horizon) (hlabels : labels.Within horizon)
    {number : Binary64} (hnumber : value.toFloat labels = .ok number) :
    number.remark horizon.relocation.mark = number := by
  have houtcomes := Value.toFloat_relocate hlabels value
  rw [hvalue] at houtcomes
  exact (values_of_outcomes houtcomes hnumber).symm

end Value.Within

theorem Value.within_float {number : Binary64}
    (hnumber : number.remark horizon.relocation.mark = number) :
    (Value.float number).Within horizon :=
  congrArg Value.float hnumber

theorem Value.within_ofNumber {number : Binary64}
    (hnumber : number.remark horizon.relocation.mark = number) :
    (Value.ofNumber number).Within horizon := by
  have hvalues := @Value.ofNumber_relocate horizon.relocation number
  rw [hnumber] at hvalues
  exact hvalues.1.symm

theorem Plain.Within.value {plain : Plain} (hplain : plain.Within horizon) {value : Value}
    (hvalue : Value.ofPlain plain = .ok value) : value.Within horizon := by
  have houtcomes := @Value.ofPlain_relocate horizon.relocation plain
  rw [hplain] at houtcomes
  exact (values_of_outcomes houtcomes hvalue).1.symm

theorem BinaryOperator.within_apply {labels : Labels} (hlabels : labels.Within horizon)
    {operator : BinaryOperator} {left right : Value} (hleft : left.Within horizon)
    (hright : right.Within horizon) {value : Value}
    (hvalue : operator.apply labels left right = .ok value) : value.Within horizon := by
  have houtcomes := BinaryOperator.apply_relocate hlabels operator left right
  rw [hleft, hright] at houtcomes
  exact (values_of_outcomes houtcomes hvalue).1.symm

theorem UnaryOperator.within_apply {labels : Labels} (hlabels : labels.Within horizon)
    {operator : UnaryOperator} {operand : Value} (hoperand : operand.Within horizon) {value : Value}
    (hvalue : operator.apply labels operand = .ok value) : value.Within horizon := by
  have houtcomes := UnaryOperator.apply_relocate hlabels operator operand
  rw [hoperand] at houtcomes
  exact (values_of_outcomes houtcomes hvalue).1.symm

/-! ## Records -/

/-- Only fields have marks in them. -/
theorem Record.within_iff {record : Record} :
    record.Within horizon ↔
      record.fields.convert (Plain.remark horizon.relocation.mark)
        (Plain.remark horizon.relocation.mark) = record.fields := by
  constructor
  · exact congrArg Record.fields
  · intro hfields
    rw [Within, remark, Record.mk.injEq]
    exact ⟨rfl, rfl, rfl, rfl, rfl, hfields, rfl⟩

namespace Record.Within

variable {record : Record}

theorem of_fields (hrecord : record.Within horizon) {other : Record}
    (hfields : other.fields = record.fields) : other.Within horizon := by
  rw [within_iff] at hrecord ⊢
  rw [hfields]
  exact hrecord

theorem field? (hrecord : record.Within horizon) {name : String} {plain : Plain}
    (hfield : record.field? name = some plain) : plain.Within horizon := by
  have hremarked := record.field?_remark horizon.relocation.mark_injective name
  rw [hrecord, hfield, Option.map_some] at hremarked
  exact (Option.some.inj hremarked).symm

theorem setField (hrecord : record.Within horizon) (name : String) {plain : Plain}
    (hplain : plain.Within horizon) : (record.setField name plain).Within horizon := by
  have hwritten := record.setField_remark horizon.relocation.mark_injective name plain
  rw [hrecord, hplain] at hwritten
  exact hwritten.symm

theorem setLink (hrecord : record.Within horizon) (link : Link) :
    (record.setLink link).Within horizon := by
  have hwritten := @Record.setLink_remark horizon.relocation.mark record link
  rw [hrecord] at hwritten
  exact hwritten.symm

theorem cloneOf (hrecord : record.Within horizon) (number : Nat) (mod : String) :
    (Work.cloneOf record number mod).Within horizon := by
  have hremoved := Entries.remove_convert (Plain.remark horizon.relocation.mark)
    (Plain.beq_remark horizon.relocation.mark_injective) record.fields (.str Record.removedField)
  rw [within_iff.mp hrecord, Plain.remark_str] at hremoved
  exact within_iff.mpr hremoved.symm

end Record.Within

end Patchwork
