import Patchwork.Evaluation.World
import Patchwork.Proofs.Agreement
import Patchwork.Proofs.Relocation.Contents

/-!
# Relocation

A relocation gives records other places and marks other numbers.  Nothing in a
value or an expression changes but references and marks, so texts, tests and
lookups come out alike.

A relocation also tells which records are loaded and what they hold: their places
are never given to a script, and a value is free if it refers to none of them.
-/

namespace Patchwork

/-- Other places for records and other numbers for marks, beside records that
are loaded. -/
structure Relocation where
  /-- The places of the loaded records. -/
  loaded : List RecordRef
  /-- The pool in which the loaded records are as they were loaded. -/
  pristine : Pool
  ref : RecordRef → RecordRef
  mark : Nat → Nat
  ref_injective : Function.Injective ref
  mark_injective : Function.Injective mark
  mark_zero : mark 0 = 0

namespace Relocation

/-- Whether a place is not that of a loaded record. -/
def Free (relocation : Relocation) (ref : RecordRef) : Prop :=
  ref ∉ relocation.loaded

/-- Whether the loaded records are in a pool as they were loaded. -/
def KeptIn (relocation : Relocation) (pool : Pool) : Prop :=
  ∀ ref ∈ relocation.loaded, pool.Holds ref ∧ pool.get ref = relocation.pristine.get ref

end Relocation

/-- The group with its records at other places. -/
def Group.relocate (relocation : Relocation) (group : Group) : Group :=
  ⟨group.members.map fun member => ⟨member.mod, relocation.ref member.record⟩⟩

/-- Whether a group has no loaded records. -/
def Group.Free (relocation : Relocation) (group : Group) : Prop :=
  ∀ member ∈ group.members, relocation.Free member.record

mutual

/-- The value with other places and marks. -/
def Value.relocate (relocation : Relocation) : Value → Value
  | .float number => .float (number.remark relocation.mark)
  | .array items => .array (relocateItems relocation items)
  | .group group => .group (group.relocate relocation)
  | .closure identity parameter body record =>
    .closure (relocation.mark identity) parameter (Node.relocate relocation body)
      (record.map relocation.ref)
  | value => value

/-- The expression with other places and marks. -/
def Node.relocate (relocation : Relocation) : Node → Node
  | .literal value => .literal (Value.relocate relocation value)
  | .parameter name => .parameter name
  | .unary operator operand => .unary operator (Node.relocate relocation operand)
  | .binary operator left right =>
    .binary operator (Node.relocate relocation left) (Node.relocate relocation right)
  | .call function arguments => .call function (relocateNodes relocation arguments)
  | .test predicate arguments => .test predicate (relocateNodes relocation arguments)
  | .array elements => .array (relocateNodes relocation elements)
  | .tableName name => .tableName name
  | .index target position =>
    .index (Node.relocate relocation target) (Node.relocate relocation position)
  | .group group => .group (group.relocate relocation)
  | .procedure procedure arguments pairwise =>
    .procedure procedure (relocateNodes relocation arguments) pairwise
  | .pipe left procedure arguments pairwise =>
    .pipe (Node.relocate relocation left) procedure (relocateNodes relocation arguments) pairwise
  | .lambda parameter body => .lambda parameter (Node.relocate relocation body)
  | .command command arguments => .command command (relocateNodes relocation arguments)

/-- The elements of an array with other places and marks. -/
def relocateItems (relocation : Relocation) : List Value → List Value
  | [] => []
  | item :: rest => Value.relocate relocation item :: relocateItems relocation rest

/-- The expressions of a list with other places and marks. -/
def relocateNodes (relocation : Relocation) : List Node → List Node
  | [] => []
  | node :: rest => Node.relocate relocation node :: relocateNodes relocation rest

end

mutual

/-- Whether a value refers to no loaded record. -/
def Value.Free (relocation : Relocation) : Value → Prop
  | .array items => freeItems relocation items
  | .group group => group.Free relocation
  | .closure _ _ body record => Node.Free relocation body ∧ ∀ ref ∈ record, relocation.Free ref
  | _ => True

/-- Whether an expression refers to no loaded record. -/
def Node.Free (relocation : Relocation) : Node → Prop
  | .literal value => Value.Free relocation value
  | .parameter _ => True
  | .unary _ operand => Node.Free relocation operand
  | .binary _ left right => Node.Free relocation left ∧ Node.Free relocation right
  | .call _ arguments => freeNodes relocation arguments
  | .test _ arguments => freeNodes relocation arguments
  | .array elements => freeNodes relocation elements
  | .tableName _ => True
  | .index target position => Node.Free relocation target ∧ Node.Free relocation position
  | .group group => group.Free relocation
  | .procedure _ arguments _ => freeNodes relocation arguments
  | .pipe left _ arguments _ => Node.Free relocation left ∧ freeNodes relocation arguments
  | .lambda _ body => Node.Free relocation body
  | .command _ arguments => freeNodes relocation arguments

/-- Whether the elements of an array refer to no loaded record. -/
def freeItems (relocation : Relocation) : List Value → Prop
  | [] => True
  | item :: rest => Value.Free relocation item ∧ freeItems relocation rest

/-- Whether the expressions of a list refer to no loaded record. -/
def freeNodes (relocation : Relocation) : List Node → Prop
  | [] => True
  | node :: rest => Node.Free relocation node ∧ freeNodes relocation rest

end

variable {relocation : Relocation}

theorem relocateItems_eq_map (items : List Value) :
    relocateItems relocation items = items.map (Value.relocate relocation) := by
  induction items with
  | nil => rfl
  | cons item rest ih => rw [relocateItems, ih, List.map_cons]

theorem relocateNodes_eq_map (nodes : List Node) :
    relocateNodes relocation nodes = nodes.map (Node.relocate relocation) := by
  induction nodes with
  | nil => rfl
  | cons node rest ih => rw [relocateNodes, ih, List.map_cons]

theorem freeItems_iff (items : List Value) :
    freeItems relocation items ↔ ∀ item ∈ items, Value.Free relocation item := by
  induction items with
  | nil => simp [freeItems]
  | cons item rest ih => simp [freeItems, ih]

theorem freeNodes_iff (nodes : List Node) :
    freeNodes relocation nodes ↔ ∀ node ∈ nodes, Node.Free relocation node := by
  induction nodes with
  | nil => simp [freeNodes]
  | cons node rest ih => simp [freeNodes, ih]

/-! ## Groups -/

namespace Group

@[simp]
theorem size_relocate (group : Group) : (group.relocate relocation).size = group.size := by
  simp [relocate, size]

@[simp]
theorem records_relocate (group : Group) :
    (group.relocate relocation).records = group.records.map relocation.ref := by
  simp [relocate, records, Function.comp_def]

@[simp]
theorem distinctMods_relocate (group : Group) (excluded : Option String) :
    (group.relocate relocation).distinctMods excluded = group.distinctMods excluded := by
  simp [relocate, distinctMods, Function.comp_def]

theorem free_of_mem_records {group : Group} (hfree : group.Free relocation) {ref : RecordRef}
    (hmem : ref ∈ group.records) : relocation.Free ref := by
  obtain ⟨member, hmember, rfl⟩ := List.mem_map.mp hmem
  exact hfree member hmember

theorem relocate_injective : Function.Injective (Group.relocate relocation) := by
  intro left right heq
  obtain ⟨lefts⟩ := left
  obtain ⟨rights⟩ := right
  simp only [relocate, mk.injEq] at heq ⊢
  refine List.map_injective_iff.mpr ?_ heq
  intro first second hmember
  obtain ⟨mod, ref⟩ := first
  obtain ⟨mod', ref'⟩ := second
  simp only [Member.mk.injEq] at hmember ⊢
  exact ⟨hmember.1, relocation.ref_injective hmember.2⟩

end Group

/-! ## What belongs together -/

theorem forall₂_eq_map_iff {Item Item' : Type} {change : Item → Item'} {free : Item → Prop}
    {items : List Item} {items' : List Item'} :
    List.Forall₂ (fun item item' => item' = change item ∧ free item) items items' ↔
      items' = items.map change ∧ ∀ item ∈ items, free item := by
  constructor
  · intro hitems
    induction hitems with
    | nil => simp
    | cons hitem _ ih =>
      rw [ih.1, hitem.1, List.map_cons, List.forall_mem_cons]
      exact ⟨rfl, hitem.2, ih.2⟩
  · rintro ⟨rfl, hfree⟩
    induction items with
    | nil => exact List.Forall₂.nil
    | cons item rest ih =>
      rw [List.forall_mem_cons] at hfree
      exact List.Forall₂.cons ⟨rfl, hfree.1⟩ (ih hfree.2)

namespace Relocation

variable (relocation : Relocation)

/-- A free place and its other place. -/
def Refs (ref ref' : RecordRef) : Prop :=
  ref' = relocation.ref ref ∧ relocation.Free ref

/-- A current record and its other place, or none. -/
def Currents (current current' : Option RecordRef) : Prop :=
  current' = current.map relocation.ref ∧ ∀ ref ∈ current, relocation.Free ref

/-- A free group and the group with its records at other places. -/
def Groups (group group' : Group) : Prop :=
  group' = group.relocate relocation ∧ group.Free relocation

/-- A free value and the value with other places and marks. -/
def Values (value value' : Value) : Prop :=
  value' = value.relocate relocation ∧ value.Free relocation

/-- A free expression and the expression with other places and marks. -/
def Nodes (node node' : Node) : Prop :=
  node' = node.relocate relocation ∧ node.Free relocation

variable {relocation}

@[simp]
theorem currents_none : relocation.Currents none none :=
  ⟨rfl, fun _ hmem => nomatch hmem⟩

theorem currents_some {ref ref' : RecordRef} (hrefs : relocation.Refs ref ref') :
    relocation.Currents (some ref) (some ref') := by
  refine ⟨congrArg some hrefs.1, ?_⟩
  intro other hmem
  cases hmem
  exact hrefs.2

theorem forall₂_refs_records {group group' : Group} (hgroups : relocation.Groups group group') :
    List.Forall₂ relocation.Refs group.records group'.records := by
  refine forall₂_eq_map_iff.mpr ⟨?_, fun ref => Group.free_of_mem_records hgroups.2⟩
  rw [hgroups.1, Group.records_relocate]

theorem values_integer (number : Int) :
    relocation.Values (.integer number) (.integer number) := ⟨rfl, trivial⟩

theorem values_float (number : Binary64) :
    relocation.Values (.float number) (.float (number.remark relocation.mark)) :=
  ⟨rfl, trivial⟩

theorem values_float_of_eq {number : Binary64}
    (hnumber : number.remark relocation.mark = number) :
    relocation.Values (.float number) (.float number) := by
  have hvalues : relocation.Values (.float number) (.float (number.remark relocation.mark)) :=
    values_float number
  rw [hnumber] at hvalues
  exact hvalues

theorem values_string (text : String) :
    relocation.Values (.string text) (.string text) := ⟨rfl, trivial⟩

theorem values_boolean (flag : Bool) :
    relocation.Values (.boolean flag) (.boolean flag) := ⟨rfl, trivial⟩

theorem values_table (name : String) :
    relocation.Values (.table name) (.table name) := ⟨rfl, trivial⟩

theorem values_null : relocation.Values .null .null := ⟨rfl, trivial⟩

theorem values_group {group group' : Group} (hgroups : relocation.Groups group group') :
    relocation.Values (.group group) (.group group') :=
  ⟨congrArg Value.group hgroups.1, hgroups.2⟩

theorem forall₂_values_iff {items items' : List Value} :
    List.Forall₂ relocation.Values items items' ↔
      items' = relocateItems relocation items ∧ freeItems relocation items := by
  rw [relocateItems_eq_map, freeItems_iff]
  exact forall₂_eq_map_iff

theorem values_array {items items' : List Value}
    (hitems : List.Forall₂ relocation.Values items items') :
    relocation.Values (.array items) (.array items') := by
  obtain ⟨heq, hfree⟩ := forall₂_values_iff.mp hitems
  exact ⟨congrArg Value.array heq, hfree⟩

end Relocation

/-! ## Texts -/

section Texts

variable {labels labels' : Labels}

theorem Group.text_relocate (hlabels : ∀ ref, labels' (relocation.ref ref) = labels ref)
    (group : Group) : (group.relocate relocation).text labels' = group.text labels := by
  simp only [text, relocate, List.isEmpty_map, List.map_map, Function.comp_def, hlabels]

mutual

theorem Value.display_relocate (hlabels : ∀ ref, labels' (relocation.ref ref) = labels ref)
    (value : Value) : (value.relocate relocation).display labels' = value.display labels := by
  cases value with
  | float number => exact Binary64.floatDisplay_remark number
  | array items =>
    simp only [Value.relocate, Value.display]
    rw [displayItems_relocate hlabels items]
  | group group => exact Group.text_relocate hlabels group
  | closure identity parameter body record =>
    simp only [Value.relocate, Value.display]
    rw [Node.text_relocate hlabels body]
  | _ => rfl

theorem Node.text_relocate (hlabels : ∀ ref, labels' (relocation.ref ref) = labels ref)
    (node : Node) : (node.relocate relocation).text labels' = node.text labels := by
  cases node with
  | literal value =>
    have hdisplay := Value.display_relocate hlabels value
    cases value with
    | string text => rfl
    | _ => exact hdisplay
  | unary operator operand =>
    simp only [Node.relocate, Node.text]
    rw [Node.text_relocate hlabels operand]
  | binary operator left right =>
    simp only [Node.relocate, Node.text]
    rw [Node.text_relocate hlabels left, Node.text_relocate hlabels right]
  | call function arguments =>
    simp only [Node.relocate, Node.text]
    rw [nodeTexts_relocate hlabels arguments]
  | test predicate arguments =>
    simp only [Node.relocate, Node.text]
    rw [nodeTexts_relocate hlabels arguments]
  | array elements =>
    simp only [Node.relocate, Node.text]
    rw [nodeTexts_relocate hlabels elements]
  | index target position =>
    simp only [Node.relocate, Node.text]
    rw [Node.text_relocate hlabels target, Node.text_relocate hlabels position]
  | group group => simp only [Node.relocate, Node.text, Group.size_relocate]
  | procedure procedure arguments pairwise =>
    simp only [Node.relocate, Node.text]
    rw [nodeTexts_relocate hlabels arguments]
  | pipe left procedure arguments pairwise =>
    simp only [Node.relocate, Node.text]
    rw [Node.text_relocate hlabels left, nodeTexts_relocate hlabels arguments]
  | lambda parameter body =>
    simp only [Node.relocate, Node.text]
    rw [Node.text_relocate hlabels body]
  | command command arguments =>
    simp only [Node.relocate, Node.text]
    rw [nodeTexts_relocate hlabels arguments]
  | _ => rfl

theorem displayItems_relocate (hlabels : ∀ ref, labels' (relocation.ref ref) = labels ref)
    (items : List Value) :
    displayItems labels' (relocateItems relocation items) = displayItems labels items := by
  cases items with
  | nil => rfl
  | cons item rest =>
    simp only [relocateItems, displayItems]
    rw [Value.display_relocate hlabels item, displayItems_relocate hlabels rest]

theorem nodeTexts_relocate (hlabels : ∀ ref, labels' (relocation.ref ref) = labels ref)
    (nodes : List Node) :
    nodeTexts labels' (relocateNodes relocation nodes) = nodeTexts labels nodes := by
  cases nodes with
  | nil => rfl
  | cons node rest =>
    simp only [relocateNodes, nodeTexts]
    rw [Node.text_relocate hlabels node, nodeTexts_relocate hlabels rest]

end

@[simp]
theorem Node.kindName_relocate (node : Node) :
    (node.relocate relocation).kindName = node.kindName := by
  cases node <;> rfl

@[simp]
theorem Node.producesGroup_relocate (node : Node) :
    (node.relocate relocation).producesGroup = node.producesGroup := by
  cases node <;> rfl

theorem Value.summary_relocate (hlabels : ∀ ref, labels' (relocation.ref ref) = labels ref)
    (value : Value) : (value.relocate relocation).summary labels' = value.summary labels := by
  have hdisplay := Value.display_relocate hlabels value
  cases value with
  | null => rfl
  | _ =>
    simp only [Value.relocate] at hdisplay
    simp only [Value.relocate, Value.summary, Value.kindName, hdisplay]

end Texts

/-! ## Equality -/

mutual

theorem Value.same_relocate (left right : Value) :
    Value.same (left.relocate relocation) (right.relocate relocation) =
      Value.same left right := by
  cases left with
  | array items =>
    cases right with
    | array others => exact sameItems_relocate items others
    | _ => rfl
  | float number =>
    cases right with
    | float other => exact Binary64.same_remark relocation.mark_injective number other
    | _ => rfl
  | group group =>
    cases right with
    | group other =>
      simp only [Value.relocate, Value.same]
      rw [Bool.eq_iff_iff, beq_iff_eq, beq_iff_eq]
      exact Group.relocate_injective.eq_iff
    | _ => rfl
  | closure identity _ _ _ =>
    cases right with
    | closure other _ _ _ =>
      simp only [Value.relocate, Value.same]
      rw [Bool.eq_iff_iff, beq_iff_eq, beq_iff_eq]
      exact relocation.mark_injective.eq_iff
    | _ => rfl
  | _ => cases right <;> rfl

theorem sameItems_relocate (left right : List Value) :
    Value.sameItems (relocateItems relocation left) (relocateItems relocation right) =
      Value.sameItems left right := by
  cases left with
  | nil => cases right <;> rfl
  | cons first rest =>
    cases right with
    | nil => rfl
    | cons other others =>
      simp only [relocateItems, Value.sameItems]
      rw [Value.same_relocate first other, sameItems_relocate rest others]

end

end Patchwork
