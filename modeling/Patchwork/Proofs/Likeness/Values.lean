import Patchwork.Proofs.Evaluation.Outcomes
import Patchwork.Proofs.Likeness.Alike
import Patchwork.Proofs.Relocation.Operators

/-!
# Likenesses

A likeness relates values and expressions that evaluation does not tell apart: related
values have the same shape, the same text and related parts, and related expressions have
the same shape and related parts or come out alike by themselves.  Coercions and
operators give the same for related values.
-/

namespace Patchwork

open Eval

/-! ## Shapes -/

/-- A value without parts. -/
def Value.IsAtom : Value → Prop
  | .array _ => False
  | .closure .. => False
  | _ => True

section Shapes

variable (values : Value → Value → Prop) (nodes bodies : Node → Node → Prop)

/-- Values of one shape whose parts are related. -/
inductive Value.SameShape : Value → Value → Prop
  | atom {value : Value} (hatom : value.IsAtom) : SameShape value value
  | array {items items' : List Value} (hitems : List.Forall₂ values items items') :
    SameShape (.array items) (.array items')
  | closure {body body' : Node} (identity : Nat) (parameter : String)
    (record : Option RecordRef) (hbody : bodies body body') :
    SameShape (.closure identity parameter body record)
      (.closure identity parameter body' record)

/-- Expressions of one shape whose parts are related. -/
inductive Node.SameShape : Node → Node → Prop
  | literal {value value' : Value} (hvalue : values value value') :
    SameShape (.literal value) (.literal value')
  | parameter (name : String) : SameShape (.parameter name) (.parameter name)
  | unary {operand operand' : Node} (operator : UnaryOperator)
    (hoperand : nodes operand operand') :
    SameShape (.unary operator operand) (.unary operator operand')
  | binary {left left' right right' : Node} (operator : BinaryOperator)
    (hleft : nodes left left') (hright : nodes right right') :
    SameShape (.binary operator left right) (.binary operator left' right')
  | call {arguments arguments' : List Node} (function : Function)
    (harguments : List.Forall₂ nodes arguments arguments') :
    SameShape (.call function arguments) (.call function arguments')
  | test {arguments arguments' : List Node} (predicate : Predicate)
    (harguments : List.Forall₂ nodes arguments arguments') :
    SameShape (.test predicate arguments) (.test predicate arguments')
  | array {elements elements' : List Node} (helements : List.Forall₂ nodes elements elements') :
    SameShape (.array elements) (.array elements')
  | tableName (name : String) : SameShape (.tableName name) (.tableName name)
  | index {target target' position position' : Node} (htarget : nodes target target')
    (hposition : nodes position position') :
    SameShape (.index target position) (.index target' position')
  | group (group : Group) : SameShape (.group group) (.group group)
  | procedure (procedure : Procedure) (arguments arguments' : List Node) (pairwise : Bool) :
    SameShape (.procedure procedure arguments pairwise)
      (.procedure procedure arguments' pairwise)
  | pipe {left left' : Node} {arguments arguments' : List Node} (procedure : Procedure)
    (pairwise : Bool) (hleft : nodes left left')
    (harguments : List.Forall₂ nodes arguments arguments') :
    SameShape (.pipe left procedure arguments pairwise)
      (.pipe left' procedure arguments' pairwise)
  | lambda {body body' : Node} (parameter : String) (hbody : bodies body body') :
    SameShape (.lambda parameter body) (.lambda parameter body')
  | command {arguments arguments' : List Node} (command : Command)
    (harguments : List.Forall₂ nodes arguments arguments') :
    SameShape (.command command arguments) (.command command arguments')

/-- Expressions that come out alike whatever their names mean. -/
structure Node.SameMeaning (node node' : Node) : Prop where
  evaluateWith : ∀ deeper deeper' setting setting' record,
    Alike values (node.evaluateWith deeper setting record)
      (node'.evaluateWith deeper' setting' record)
  evaluateIn : ∀ deeper deeper' setting setting' scope scope' record,
    Alike values (node.evaluateIn deeper setting scope record)
      (node'.evaluateIn deeper' setting' scope' record)

end Shapes

/-- A relation on values and one on expressions that evaluation preserves.  The bodies of
lambdas have a narrower relation, since their texts show. -/
structure Likeness where
  Values : Value → Value → Prop
  Nodes : Node → Node → Prop
  Bodies : Node → Node → Prop
  nodes_of_bodies : ∀ {node node'}, Bodies node node' → Nodes node node'
  values_iff : ∀ {value value'}, Values value value' ↔ Value.SameShape Values Bodies value value'
  nodes_shape : ∀ {node node'}, Nodes node node' →
    Node.SameShape Values Nodes Bodies node node' ∨ Node.SameMeaning Values node node'
  display : ∀ {value value'}, Values value value' →
    ∀ labels, value'.display labels = value.display labels

namespace Likeness

variable {likeness : Likeness} {value value' : Value}

theorem values_atom (hatom : value.IsAtom) : likeness.Values value value :=
  likeness.values_iff.mpr (.atom hatom)

theorem values_array {items items' : List Value}
    (hitems : List.Forall₂ likeness.Values items items') :
    likeness.Values (.array items) (.array items') :=
  likeness.values_iff.mpr (.array hitems)

mutual

theorem values_of_data (value : Value) (hdata : value.Data) : likeness.Values value value := by
  cases value with
  | array items => exact values_array (forall₂_of_allData items hdata)
  | group | closure | table => exact hdata.elim
  | _ => exact values_atom trivial

theorem forall₂_of_allData (items : List Value) (hdata : AllData items) :
    List.Forall₂ likeness.Values items items := by
  cases items with
  | nil => exact List.Forall₂.nil
  | cons item rest =>
    exact List.Forall₂.cons (values_of_data item hdata.1) (forall₂_of_allData rest hdata.2)

end

/-- Closures that differ at most in related bodies. -/
inductive Closures (likeness : Likeness) : Closure → Closure → Prop
  | intro {body body' : Node} (identity : Nat) (parameter : String)
    (record : Option RecordRef) (hbody : likeness.Bodies body body') :
    likeness.Closures ⟨identity, parameter, body, record⟩ ⟨identity, parameter, body', record⟩

/-! ## Coercions -/

namespace Values

theorem kindName (hvalues : likeness.Values value value') : value'.kindName = value.kindName := by
  cases likeness.values_iff.mp hvalues <;> rfl

theorem summary (hvalues : likeness.Values value value') (labels : Labels) :
    value'.summary labels = value.summary labels := by
  have hdisplay := likeness.display hvalues labels
  cases likeness.values_iff.mp hvalues with
  | atom hatom => rfl
  | array | closure => simp only [Value.summary, Value.kindName, hdisplay]

theorem toFloat (hvalues : likeness.Values value value') (labels : Labels) :
    value'.toFloat labels = value.toFloat labels := by
  have hsummary := hvalues.summary labels
  cases likeness.values_iff.mp hvalues with
  | atom hatom => rfl
  | array | closure => simp only [Value.toFloat, hsummary]

theorem toInteger (hvalues : likeness.Values value value') (labels : Labels) :
    value'.toInteger labels = value.toInteger labels := by
  have hsummary := hvalues.summary labels
  cases likeness.values_iff.mp hvalues with
  | atom hatom => rfl
  | array | closure => simp only [Value.toInteger, hsummary]

theorem toBoolean (hvalues : likeness.Values value value') (labels : Labels) :
    value'.toBoolean labels = value.toBoolean labels := by
  have hsummary := hvalues.summary labels
  cases likeness.values_iff.mp hvalues with
  | atom hatom => rfl
  | array | closure => simp only [Value.toBoolean, hsummary]

theorem isIntegerLike (hvalues : likeness.Values value value') :
    value'.isIntegerLike = value.isIntegerLike := by
  cases likeness.values_iff.mp hvalues <;> rfl

theorem isFloatLike (hvalues : likeness.Values value value') :
    value'.isFloatLike = value.isFloatLike := by
  cases likeness.values_iff.mp hvalues <;> rfl

theorem isNumericLike (hvalues : likeness.Values value value') :
    value'.isNumericLike = value.isNumericLike := by
  cases likeness.values_iff.mp hvalues <;> rfl

theorem unexpected (hvalues : likeness.Values value value') (labels : Labels)
    (expectation : Expectation) (purpose : String) :
    value'.unexpected labels expectation purpose = value.unexpected labels expectation purpose := by
  unfold Value.unexpected
  rw [hvalues.summary labels]

theorem expectString (hvalues : likeness.Values value value') (labels : Labels)
    (purpose : String) :
    value'.expectString labels purpose = value.expectString labels purpose := by
  have hunexpected := hvalues.unexpected labels .string purpose
  cases likeness.values_iff.mp hvalues with
  | atom hatom => rfl
  | array | closure => simp only [Value.expectString, hunexpected]

theorem expectBoolean (hvalues : likeness.Values value value') (labels : Labels)
    (purpose : String) :
    value'.expectBoolean labels purpose = value.expectBoolean labels purpose := by
  have hunexpected := hvalues.unexpected labels .boolean purpose
  cases likeness.values_iff.mp hvalues with
  | atom hatom => rfl
  | array | closure => simp only [Value.expectBoolean, hunexpected]

theorem expectGroup (hvalues : likeness.Values value value') (labels : Labels)
    (purpose : String) :
    value'.expectGroup labels purpose = value.expectGroup labels purpose := by
  have hunexpected := hvalues.unexpected labels .group purpose
  cases likeness.values_iff.mp hvalues with
  | atom hatom => rfl
  | array | closure => simp only [Value.expectGroup, hunexpected]

theorem expectInteger (hvalues : likeness.Values value value') (labels : Labels)
    (purpose : String) :
    value'.expectInteger labels purpose = value.expectInteger labels purpose := by
  unfold Value.expectInteger
  rw [hvalues.isIntegerLike, hvalues.toInteger labels, hvalues.unexpected labels]

theorem expectArray (hvalues : likeness.Values value value') (labels : Labels)
    (purpose : String) :
    Option.Rel (List.Forall₂ likeness.Values) (value.expectArray labels purpose).toOption
      (value'.expectArray labels purpose).toOption := by
  cases likeness.values_iff.mp hvalues with
  | array hitems => exact .some hitems
  | closure => exact .none
  | atom hatom =>
    cases value with
    | array => exact hatom.elim
    | _ => exact .none

theorem expectClosure (hvalues : likeness.Values value value') (labels : Labels)
    (purpose : String) :
    Option.Rel likeness.Closures (value.expectClosure labels purpose).toOption
      (value'.expectClosure labels purpose).toOption := by
  cases likeness.values_iff.mp hvalues with
  | array => exact .none
  | closure identity parameter record hbody => exact .some (.intro identity parameter record hbody)
  | atom hatom =>
    cases value with
    | closure => exact hatom.elim
    | _ => exact .none

theorem expectIntegers (hvalues : likeness.Values value value') (labels : Labels)
    (purpose : String) :
    value'.expectIntegers labels purpose = value.expectIntegers labels purpose := by
  have hunexpected := hvalues.unexpected labels .array purpose
  unfold Value.expectIntegers
  cases likeness.values_iff.mp hvalues with
  | atom hatom => rfl
  | closure => simp only [Value.expectArray, hunexpected]
  | array hitems =>
    clear hvalues hunexpected
    change List.mapM _ _ = List.mapM _ _
    induction hitems with
    | nil => rfl
    | cons hitem _ ih => rw [List.mapM_cons, List.mapM_cons, ih, hitem.expectInteger]

end Values

/-! ## Equality -/

mutual

theorem same_eq (left : Value) {left' right right' : Value} (hleft : likeness.Values left left')
    (hright : likeness.Values right right') : left'.same right' = left.same right := by
  have hlefts := likeness.values_iff.mp hleft
  have hrights := likeness.values_iff.mp hright
  cases left with
  | array items =>
    cases hlefts with
    | atom hatom => exact hatom.elim
    | array hitems =>
      cases hrights with
      | array hothers => exact sameItems_eq items hitems hothers
      | closure => rfl
      | atom hatom =>
        cases right with
        | array => exact hatom.elim
        | _ => rfl
  | closure identity parameter body record =>
    cases hlefts with
    | atom hatom => exact hatom.elim
    | closure =>
      cases hrights with
      | array | closure => rfl
      | atom hatom =>
        cases right with
        | closure => exact hatom.elim
        | _ => rfl
  | _ =>
    cases hlefts
    cases hrights <;> rfl

theorem sameItems_eq (items : List Value) {items' others others' : List Value}
    (hitems : List.Forall₂ likeness.Values items items')
    (hothers : List.Forall₂ likeness.Values others others') :
    Value.sameItems items' others' = Value.sameItems items others := by
  cases items with
  | nil =>
    cases hitems
    cases hothers <;> rfl
  | cons item rest =>
    cases hitems with
    | cons hitem hrest =>
      cases hothers with
      | nil => rfl
      | cons hother hmore =>
        rw [Value.sameItems, Value.sameItems, same_eq item hitem hother,
          sameItems_eq rest hrest hmore]

end

/-! ## Operators -/

end Likeness

namespace BinaryOperator

variable (labels : Labels) {left right : Value}

theorem add_string (hleft : ∀ text, left ≠ .string text) (text : String) :
    add labels left (.string text) = .ok (.string (left.display labels ++ text)) := by
  cases left with
  | string other => exact absurd rfl (hleft other)
  | _ => rfl

theorem add_of_not_string (hleft : ∀ text, left ≠ .string text)
    (hright : ∀ text, right ≠ .string text) :
    add labels left right = arithmetic labels (· + ·) Binary64.add left right := by
  unfold add
  split
  · exact absurd rfl (hleft _)
  · exact absurd rfl (hright _)
  · rfl

end BinaryOperator

namespace Likeness

variable {likeness : Likeness}

section Operators

variable {left left' right right' : Value} (hleft : likeness.Values left left')
  (hright : likeness.Values right right') (labels : Labels)

include hleft

theorem eq_null_iff : left' = .null ↔ left = .null := by
  cases likeness.values_iff.mp hleft with
  | atom hatom => rfl
  | array | closure => exact ⟨nofun, nofun⟩

theorem eq_string_iff {text : String} : left' = .string text ↔ left = .string text := by
  cases likeness.values_iff.mp hleft with
  | atom hatom => rfl
  | array | closure => exact ⟨nofun, nofun⟩

theorem unary_apply_eq (operator : UnaryOperator) :
    operator.apply labels left' = operator.apply labels left := by
  have hfloat := hleft.toFloat labels
  have hboolean := hleft.toBoolean labels
  cases likeness.values_iff.mp hleft with
  | atom hatom => rfl
  | array | closure => cases operator <;> simp only [UnaryOperator.apply, hfloat, hboolean]

include hright

theorem arithmetic_eq (onIntegers : Int → Int → Int)
    (onFloats : Binary64 → Binary64 → Binary64) :
    BinaryOperator.arithmetic labels onIntegers onFloats left' right' =
      BinaryOperator.arithmetic labels onIntegers onFloats left right := by
  unfold BinaryOperator.arithmetic
  rw [hleft.isFloatLike, hright.isFloatLike, hleft.toFloat, hright.toFloat, hleft.toInteger,
    hright.toInteger]

theorem add_eq : BinaryOperator.add labels left' right' = BinaryOperator.add labels left right := by
  have hdisplay := likeness.display hleft labels
  have hdisplay' := likeness.display hright labels
  by_cases hstring : ∃ text, left = .string text
  · obtain ⟨text, rfl⟩ := hstring
    rw [(eq_string_iff hleft).mpr rfl]
    change Except.ok (Value.string (text ++ right'.display labels)) = _
    rw [hdisplay']
    rfl
  by_cases hstring' : ∃ text, right = .string text
  · obtain ⟨text, rfl⟩ := hstring'
    rw [(eq_string_iff hright).mpr rfl,
      BinaryOperator.add_string labels (fun text htext => hstring ⟨text, htext⟩),
      BinaryOperator.add_string labels
        (fun text htext => hstring ⟨text, (eq_string_iff hleft).mp htext⟩), hdisplay]
  · rw [BinaryOperator.add_of_not_string labels (fun text htext => hstring ⟨text, htext⟩)
        (fun text htext => hstring' ⟨text, htext⟩),
      BinaryOperator.add_of_not_string labels
        (fun text htext => hstring ⟨text, (eq_string_iff hleft).mp htext⟩)
        (fun text htext => hstring' ⟨text, (eq_string_iff hright).mp htext⟩),
      arithmetic_eq hleft hright]

theorem equals_eq :
    BinaryOperator.equals labels left' right' = BinaryOperator.equals labels left right := by
  by_cases hnull : left = .null
  · rw [(eq_null_iff hleft).mpr hnull, hnull]
    cases likeness.values_iff.mp hright <;> rfl
  by_cases hnull' : right = .null
  · rw [(eq_null_iff hright).mpr hnull', hnull']
    cases likeness.values_iff.mp hleft <;> rfl
  · rw [BinaryOperator.equals_of_not_null labels hnull hnull',
      BinaryOperator.equals_of_not_null labels ((eq_null_iff hleft).not.mpr hnull)
        ((eq_null_iff hright).not.mpr hnull'),
      hleft.isIntegerLike, hright.isIntegerLike, hleft.isNumericLike, hright.isNumericLike,
      hleft.toInteger, hright.toInteger, hleft.toFloat, hright.toFloat,
      same_eq left hleft hright]

theorem result_eq (operator : BinaryOperator) :
    operator.result labels left' right' = operator.result labels left right := by
  cases operator with
  | plus => exact add_eq hleft hright labels
  | minus | times => exact arithmetic_eq hleft hright labels _ _
  | divided =>
    simp only [BinaryOperator.result, BinaryOperator.divide, hleft.isIntegerLike,
      hright.isIntegerLike, hleft.toFloat, hright.toFloat, hleft.toInteger, hright.toInteger]
  | modulo =>
    simp only [BinaryOperator.result, BinaryOperator.remainder, hleft.isIntegerLike,
      hright.isIntegerLike, hleft.toFloat, hright.toFloat, hleft.toInteger, hright.toInteger]
  | equal | notEqual => simp only [BinaryOperator.result, equals_eq hleft hright]
  | greater | less | atLeast | atMost =>
    simp only [BinaryOperator.result, BinaryOperator.compare, hleft.toFloat, hright.toFloat]
  | or | and => simp only [BinaryOperator.result, hleft.toBoolean, hright.toBoolean]

theorem apply_eq (operator : BinaryOperator) :
    operator.apply labels left' right' = operator.apply labels left right := by
  unfold BinaryOperator.apply
  rw [result_eq hleft hright, hleft.summary, hright.summary]

end Operators

end Likeness

end Patchwork
