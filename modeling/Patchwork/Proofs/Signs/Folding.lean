import Patchwork.Proofs.Likeness.Evaluation

/-!
# Minus signs taken into numbers

A number with the operator for its opposite in front of it means the same as the opposite
number.  Folding an expression takes every such operator into the number it stands in front
of.  The operator also stands in front of the indexes after a number, where evaluation
fails with it and without it.  Zero is told from its opposite only by its text, so zeros
are left as they are in the body of a lambda, whose text shows.
-/

namespace Patchwork

open Eval

/-- The opposite of a positive number, and of zero if zeros count. -/
def Value.negated? (zeros : Bool) : Value → Option Value
  | .integer number =>
    if 0 < number ∨ zeros = true ∧ number = 0 then some (.integer (-number)) else none
  | .float (.finite false units fits) =>
    if units ≠ 0 ∨ zeros = true then some (.float (.finite true units fits)) else none
  | .float (.infinite false) => some (.float (.infinite true))
  | _ => none

/-- A number with a minus sign taken into it, and with the indexes that stand after it. -/
def Node.negated? (zeros : Bool) : Node → Option Node
  | .literal value => (value.negated? zeros).map .literal
  | .index target position => (target.negated? zeros).map (.index · position)
  | _ => none

mutual

/-- The value with minus signs taken into the numbers of its expressions. -/
def Value.fold : Value → Value
  | .array items => .array (foldItems items)
  | .closure identity parameter body record =>
    .closure identity parameter (Node.fold false false body) record
  | value => value

/-- The expression with minus signs taken into numbers: into zeros outside and inside the
bodies of lambdas as it is said for each. -/
def Node.fold (outside inside : Bool) : Node → Node
  | .literal value => .literal value.fold
  | .parameter name => .parameter name
  | .unary .negative operand =>
    ((Node.fold outside inside operand).negated? outside).getD
      (.unary .negative (Node.fold outside inside operand))
  | .unary .not operand => .unary .not (Node.fold outside inside operand)
  | .binary operator left right =>
    .binary operator (Node.fold outside inside left) (Node.fold outside inside right)
  | .call function arguments => .call function (foldNodes outside inside arguments)
  | .test predicate arguments => .test predicate (foldNodes outside inside arguments)
  | .array elements => .array (foldNodes outside inside elements)
  | .tableName name => .tableName name
  | .index target position =>
    .index (Node.fold outside inside target) (Node.fold outside inside position)
  | .group group => .group group
  | .procedure procedure arguments pairwise =>
    .procedure procedure (foldNodes outside inside arguments) pairwise
  | .pipe left procedure arguments pairwise =>
    .pipe (Node.fold outside inside left) procedure (foldNodes outside inside arguments) pairwise
  | .lambda parameter body => .lambda parameter (Node.fold inside inside body)
  | .command command arguments => .command command (foldNodes outside inside arguments)

/-- The elements of an array with minus signs taken into numbers. -/
def foldItems : List Value → List Value
  | [] => []
  | item :: rest => item.fold :: foldItems rest

/-- The expressions of a list with minus signs taken into numbers. -/
def foldNodes (outside inside : Bool) : List Node → List Node
  | [] => []
  | node :: rest => Node.fold outside inside node :: foldNodes outside inside rest

end

theorem foldItems_eq_map (items : List Value) : foldItems items = items.map Value.fold := by
  induction items with
  | nil => rfl
  | cons item rest ih => rw [foldItems, ih, List.map_cons]

theorem foldNodes_eq_map (outside inside : Bool) (nodes : List Node) :
    foldNodes outside inside nodes = nodes.map (Node.fold outside inside) := by
  induction nodes with
  | nil => rfl
  | cons node rest ih => rw [foldNodes, ih, List.map_cons]

/-! ## Numbers with indexes after them -/

/-- A number, perhaps with indexes after it. -/
inductive Node.IsNumbered : Node → Prop
  | literal {value : Value} (hvalue : value.IsNumber) : IsNumbered (.literal value)
  | index {target : Node} (htarget : IsNumbered target) (position : Node) :
    IsNumbered (.index target position)

namespace Value

variable {zeros : Bool} {value opposite : Value}

theorem isNumber_of_negated? (hnegated : value.negated? zeros = some opposite) :
    value.IsNumber ∧ opposite.IsNumber := by
  unfold negated? at hnegated
  split at hnegated
  · split at hnegated <;> cases hnegated
    exact ⟨trivial, trivial⟩
  · split at hnegated <;> cases hnegated
    exact ⟨trivial, trivial⟩
  · cases hnegated
    exact ⟨trivial, trivial⟩
  · cases hnegated

theorem fold_of_isNumber (hvalue : value.IsNumber) : value.fold = value := by
  cases value with
  | integer | float => rfl
  | _ => exact hvalue.elim

theorem isNumber_of_fold {value : Value} (hvalue : value.fold.IsNumber) : value.IsNumber := by
  cases value with
  | integer | float => trivial
  | _ => exact hvalue.elim

theorem apply_negative_of_negated? (hnegated : value.negated? zeros = some opposite)
    (labels : Labels) : UnaryOperator.negative.apply labels value = .ok opposite := by
  unfold negated? at hnegated
  split at hnegated
  · split at hnegated <;> cases hnegated
    rfl
  · split at hnegated <;> cases hnegated
    rfl
  · cases hnegated
    rfl
  · cases hnegated

theorem ne_nan_of_negated? (hnegated : value.negated? zeros = some opposite) :
    opposite ≠ .float (.nan 0) := by
  unfold negated? at hnegated
  split at hnegated
  · split at hnegated <;> cases hnegated
    simp
  · split at hnegated <;> cases hnegated
    simp
  · cases hnegated
    simp
  · cases hnegated

end Value

namespace Node

/-- The number without indexes after it. -/
def number? : Node → Option Value
  | .literal value => some value
  | _ => none

theorem isNumbered_of_negated? {zeros : Bool} (node : Node) {folded : Node}
    (hnegated : node.negated? zeros = some folded) : node.IsNumbered ∧ folded.IsNumbered := by
  cases node with
  | literal value =>
    obtain ⟨opposite, hopposite, rfl⟩ := Option.map_eq_some_iff.mp hnegated
    obtain ⟨hvalue, hnumber⟩ := Value.isNumber_of_negated? hopposite
    exact ⟨.literal hvalue, .literal hnumber⟩
  | index target position =>
    obtain ⟨inner, hinner, rfl⟩ := Option.map_eq_some_iff.mp hnegated
    obtain ⟨htarget, hfolded⟩ := isNumbered_of_negated? target hinner
    exact ⟨.index htarget position, .index hfolded position⟩
  | _ => cases hnegated

end Node

/-! ## What numbers with indexes evaluate to -/

/-- An evaluation that only gives a value, or fails. -/
def Eval.only : Option Value → Eval Value
  | some value => return value
  | none => fail .tooDeep

/-- Whatever names mean, evaluation gives a value at once, or fails. -/
structure Node.Settles (node : Node) (result : Option Value) : Prop where
  evaluateWith : ∀ deeper setting record,
    SameYields (node.evaluateWith deeper setting record) (Eval.only result)
  evaluateIn : ∀ deeper setting scope record,
    SameYields (node.evaluateIn deeper setting scope record) (Eval.only result)

theorem combineOne_negative {zeros : Bool} {value opposite : Value}
    (hnegated : value.negated? zeros = some opposite) :
    SameYields (combineOne .negative value) (return opposite) := by
  intro before result after
  simp only [combineOne, yields_bind, yields_labelled, Value.apply_negative_of_negated? hnegated,
    Except.ok.injEq]
  constructor
  · rintro ⟨_, _, ⟨rfl, rfl⟩, hmark⟩
    rwa [mark_of_ne (Value.ne_nan_of_negated? hnegated)] at hmark
  · intro hyields
    exact ⟨opposite, before, ⟨rfl, rfl⟩, by
      rwa [mark_of_ne (Value.ne_nan_of_negated? hnegated)]⟩

theorem settles_literal (value : Value) : (Node.literal value).Settles (some value) where
  evaluateWith _ _ _ := SameYields.refl _
  evaluateIn _ _ _ _ := sameYields_insideLambda _ _

theorem settles_index {target : Node} {result : Option Value} (htarget : target.Settles result)
    (hresult : ∀ value ∈ result, value.IsNumber) (position : Node) :
    (Node.index target position).Settles none := by
  have hnever : ∀ deeper setting record before value after,
      ¬ ((Node.index target position).evaluateWith deeper setting record).Yields before value
        after := by
    intro deeper setting record before value after hyields
    simp only [Node.evaluateWith, yields_bind] at hyields
    obtain ⟨given, between, hgiven, index, later, -, hvalue⟩ := hyields
    have honly := (htarget.evaluateWith deeper setting record before given between).mp hgiven
    cases result with
    | none => exact not_yields_fail honly
    | some number =>
      obtain ⟨rfl, -⟩ := yields_pure.mp honly
      have hnumber := hresult number rfl
      cases number with
      | integer | float =>
        obtain ⟨labels, world, -, hfail⟩ := yields_bind.mp hvalue
        exact not_yields_fail hfail
      | _ => exact hnumber
  constructor
  · exact fun deeper setting record => SameYields.of_never (hnever deeper setting record)
      fun _ _ _ => not_yields_fail
  · exact fun deeper setting scope record => (sameYields_insideLambda _ _).trans
      (SameYields.of_never (hnever deeper setting record) fun _ _ _ => not_yields_fail)

/-- The opposite of what settles to a number settles to the opposite number. -/
theorem settles_negative {zeros : Bool} {operand inner folded : Node}
    (hoperand : operand.Settles inner.number?) (hnegated : inner.negated? zeros = some folded) :
    (Node.unary .negative operand).Settles folded.number? := by
  have hcombine : SameYields (Eval.only inner.number? >>= combineOne .negative)
      (Eval.only folded.number?) := by
    cases inner with
    | literal value =>
      obtain ⟨opposite, hopposite, rfl⟩ := Option.map_eq_some_iff.mp hnegated
      exact combineOne_negative hopposite
    | index target position =>
      obtain ⟨target, -, rfl⟩ := Option.map_eq_some_iff.mp hnegated
      refine SameYields.of_never (fun before result after hyields => ?_)
        fun _ _ _ => not_yields_fail
      obtain ⟨_, _, hfail, -⟩ := yields_bind.mp hyields
      exact not_yields_fail hfail
    | _ => cases hnegated
  constructor
  · exact fun deeper setting record =>
      ((hoperand.evaluateWith deeper setting record).bind fun _ => SameYields.refl _).trans hcombine
  · exact fun deeper setting scope record =>
      ((hoperand.evaluateIn deeper setting scope record).bind
        fun _ => SameYields.refl _).trans hcombine

/-- What is folded into a number with indexes after it settles as that does. -/
theorem settles_of_isNumbered_fold (outside inside : Bool) (node : Node)
    (hnumbered : (node.fold outside inside).IsNumbered) :
    node.Settles (node.fold outside inside).number? := by
  cases node with
  | literal value =>
    obtain ⟨hvalue⟩ := hnumbered
    rw [Node.fold, Value.fold_of_isNumber (Value.isNumber_of_fold hvalue)]
    exact settles_literal value
  | index target position =>
    obtain _ | ⟨htarget, -⟩ := hnumbered
    refine settles_index (settles_of_isNumbered_fold outside inside target htarget) ?_ position
    intro value hvalue
    generalize target.fold outside inside = folded at htarget hvalue
    obtain hnumber | _ := htarget
    · cases hvalue
      exact hnumber
    · cases hvalue
  | unary operator operand =>
    cases operator with
    | not => nomatch hnumbered
    | negative =>
      rw [Node.fold] at hnumbered ⊢
      cases hnegated : (operand.fold outside inside).negated? outside with
      | none =>
        rw [hnegated] at hnumbered
        nomatch hnumbered
      | some folded =>
        have hinner := (Node.isNumbered_of_negated? _ hnegated).1
        exact settles_negative (settles_of_isNumbered_fold outside inside operand hinner) hnegated
  | _ =>
    rw [Node.fold] at hnumbered
    nomatch hnumbered

end Patchwork
