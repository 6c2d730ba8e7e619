import Patchwork.Proofs.Likeness.Evaluation
import Patchwork.Proofs.Number.Rounding
import Patchwork.Proofs.Signs.Folding

/-!
# What a minus sign in a number means

Expressions that only differ in minus signs taken into numbers come out alike.  What they give
has the same text, since in the bodies of lambdas no sign is taken into a zero.
-/

namespace Patchwork

open Eval

/-! ## Texts -/

theorem ofList_minus (chars : List Char) :
    String.ofList ('-' :: chars) = "-" ++ String.ofList chars := by
  apply String.toList_inj.mp
  rw [String.toList_append, String.toList_ofList, String.toList_ofList, String.toList_ofList,
    List.singleton_append]

theorem integerText_neg {number : Int} (hnumber : 0 < number) :
    integerText (-number) = "-" ++ integerText number := by
  rw [integerText, integerText, if_pos (by omega), if_neg (by omega), Int.natAbs_neg]

theorem floatDisplay_finite (negative : Bool) {units : Nat} (fits : fitsUnits units = true) :
    floatDisplay (.finite negative units fits) =
      if ((Binary64.finite false units fits).isWhole &&
          (Binary64.finite false units fits).less wholeDisplayLimit) = true
      then integerText (Binary64.signedUnits negative (units / unitsPerOne))
      else Shortest.text (.finite negative units fits) := by
  rw [floatDisplay]
  have hwhole : (Binary64.finite negative units fits).isWhole =
      (Binary64.finite false units fits).isWhole := by
    rw [Binary64.isWhole, Binary64.isWhole]
  rw [hwhole, Binary64.magnitude, Binary64.truncate?]
  cases ((Binary64.finite false units fits).isWhole &&
    (Binary64.finite false units fits).less wholeDisplayLimit) <;> rfl

theorem floatDisplay_negative {units : Nat} (hunits : units ≠ 0) (fits : fitsUnits units = true) :
    floatDisplay (.finite true units fits) = "-" ++ floatDisplay (.finite false units fits) := by
  rw [floatDisplay_finite, floatDisplay_finite]
  split
  · rename_i hshown
    obtain ⟨hwhole, -⟩ := Bool.and_eq_true_iff.mp hshown
    rw [Binary64.isWhole, beq_iff_eq] at hwhole
    have hquotient : 0 < units / unitsPerOne :=
      Nat.div_pos (Nat.le_of_dvd (Nat.pos_of_ne_zero hunits) (Nat.dvd_of_mod_eq_zero hwhole))
        unitsPerOne_pos
    exact integerText_neg (Int.natCast_pos.mpr hquotient)
  · simp only [Shortest.text, if_true, Bool.false_eq_true, if_false, ofList_minus]

namespace Value

theorem display_of_negated? {value opposite : Value}
    (hnegated : value.negated? false = some opposite) (labels : Labels) :
    opposite.display labels = "-" ++ value.display labels := by
  unfold negated? at hnegated
  split at hnegated
  · split at hnegated <;> cases hnegated
    rename_i number hnumber
    exact integerText_neg (by simpa using hnumber)
  · split at hnegated <;> cases hnegated
    rename_i units fits hunits
    exact floatDisplay_negative (by simpa using hunits) fits
  · cases hnegated
    rfl
  · cases hnegated

end Value

theorem Node.text_literal_of_isNumber {value : Value} (hvalue : value.IsNumber) (labels : Labels) :
    Node.text labels (.literal value) = value.display labels := by
  cases value with
  | integer | float => rfl
  | _ => exact hvalue.elim

theorem Node.text_of_negated? (node : Node) {folded : Node}
    (hnegated : node.negated? false = some folded) (labels : Labels) :
    folded.text labels = "-" ++ node.text labels := by
  cases node with
  | literal value =>
    obtain ⟨opposite, hopposite, rfl⟩ := Option.map_eq_some_iff.mp hnegated
    obtain ⟨hvalue, hnumber⟩ := Value.isNumber_of_negated? hopposite
    rw [text_literal_of_isNumber hvalue, text_literal_of_isNumber hnumber,
      Value.display_of_negated? hopposite]
  | index target position =>
    obtain ⟨inner, hinner, rfl⟩ := Option.map_eq_some_iff.mp hnegated
    simp only [Node.text, text_of_negated? target hinner, String.append_assoc]
  | _ => cases hnegated

mutual

theorem Value.display_fold (value : Value) (labels : Labels) :
    value.fold.display labels = value.display labels := by
  cases value with
  | array items => simp only [Value.fold, Value.display, displayItems_foldItems items]
  | closure identity parameter body record =>
    simp only [Value.fold, Value.display, Node.text_fold body]
  | _ => rfl

theorem Node.text_fold (node : Node) (labels : Labels) :
    (node.fold false false).text labels = node.text labels := by
  cases node with
  | literal value =>
    cases value with
    | array items => exact Value.display_fold (.array items) labels
    | closure identity parameter body record =>
      exact Value.display_fold (.closure identity parameter body record) labels
    | _ => rfl
  | parameter name => rfl
  | unary operator operand =>
    cases operator with
    | not => simp only [Node.fold, Node.text, Node.text_fold operand]
    | negative =>
      rw [Node.fold]
      cases hnegated : (operand.fold false false).negated? false with
      | none => simp only [Option.getD_none, Node.text, Node.text_fold operand]
      | some folded =>
        rw [Option.getD_some, Node.text_of_negated? _ hnegated, Node.text_fold operand]
        rfl
  | binary operator left right =>
    simp only [Node.fold, Node.text, Node.text_fold left, Node.text_fold right]
  | call function arguments => simp only [Node.fold, Node.text, nodeTexts_foldNodes arguments]
  | test predicate arguments => simp only [Node.fold, Node.text, nodeTexts_foldNodes arguments]
  | array elements => simp only [Node.fold, Node.text, nodeTexts_foldNodes elements]
  | tableName name => rfl
  | index target position =>
    simp only [Node.fold, Node.text, Node.text_fold target, Node.text_fold position]
  | group group => rfl
  | procedure procedure arguments pairwise =>
    simp only [Node.fold, Node.text, nodeTexts_foldNodes arguments]
  | pipe left procedure arguments pairwise =>
    simp only [Node.fold, Node.text, Node.text_fold left, nodeTexts_foldNodes arguments]
  | lambda parameter body => simp only [Node.fold, Node.text, Node.text_fold body]
  | command command arguments => simp only [Node.fold, Node.text, nodeTexts_foldNodes arguments]

theorem displayItems_foldItems (items : List Value) (labels : Labels) :
    displayItems labels (foldItems items) = displayItems labels items := by
  cases items with
  | nil => rfl
  | cons item rest =>
    simp only [foldItems, displayItems, Value.display_fold item, displayItems_foldItems rest]

theorem nodeTexts_foldNodes (nodes : List Node) (labels : Labels) :
    nodeTexts labels (foldNodes false false nodes) = nodeTexts labels nodes := by
  cases nodes with
  | nil => rfl
  | cons node rest =>
    simp only [foldNodes, nodeTexts, Node.text_fold node, nodeTexts_foldNodes rest]

end

/-! ## The likeness of what has been folded -/

/-- Values that are the same with minus signs taken into numbers. -/
def Value.FoldsAs (value value' : Value) : Prop :=
  value.fold = value'.fold

/-- Expressions that are the same with minus signs taken into numbers, and outside the bodies
of lambdas into zeros, too, if it is said so. -/
def Node.FoldsAs (outside : Bool) (node node' : Node) : Prop :=
  node.fold outside false = node'.fold outside false

/-- Expressions that are the same with minus signs taken into numbers, whether or not into
zeros outside the bodies of lambdas. -/
def Node.FoldsAlike (node node' : Node) : Prop :=
  ∃ outside, node.FoldsAs outside node'

theorem forall₂_foldItems (items : List Value) :
    List.Forall₂ (fun value folded => folded = value.fold) items (foldItems items) := by
  rw [foldItems_eq_map, List.forall₂_map_right_iff]
  exact List.forall₂_same.mpr fun _ _ => rfl

theorem forall₂_foldNodes (outside : Bool) (nodes : List Node) :
    List.Forall₂ (fun node folded => folded = Node.fold outside false node) nodes
      (foldNodes outside false nodes) := by
  rw [foldNodes_eq_map, List.forall₂_map_right_iff]
  exact List.forall₂_same.mpr fun _ _ => rfl

/-- Folding keeps the shape of a value. -/
theorem Value.sameShape_fold (value : Value) :
    Value.SameShape (fun value folded => folded = value.fold)
      (fun body folded => folded = body.fold false false) value value.fold := by
  cases value with
  | array items => exact .array (forall₂_foldItems items)
  | closure identity parameter body record => exact .closure identity parameter record rfl
  | _ => exact .atom trivial

/-- Folding keeps the shape of an expression, unless it makes a number of it. -/
theorem Node.sameShape_fold (outside : Bool) (node : Node)
    (hfold : ¬ (node.fold outside false).IsNumbered) :
    Node.SameShape (fun value folded => folded = value.fold)
      (fun node folded => folded = Node.fold outside false node)
      (fun body folded => folded = body.fold false false) node (node.fold outside false) := by
  cases node with
  | literal value => exact .literal rfl
  | parameter name => exact .parameter name
  | unary operator operand =>
    cases operator with
    | not => exact .unary .not rfl
    | negative =>
      rw [Node.fold] at hfold ⊢
      cases hnegated : (operand.fold outside false).negated? outside with
      | none => exact .unary .negative rfl
      | some folded =>
        rw [hnegated] at hfold
        exact absurd (Node.isNumbered_of_negated? _ hnegated).2 hfold
  | binary operator left right => exact .binary operator rfl rfl
  | call function arguments => exact .call function (forall₂_foldNodes outside arguments)
  | test predicate arguments => exact .test predicate (forall₂_foldNodes outside arguments)
  | array elements => exact .array (forall₂_foldNodes outside elements)
  | tableName name => exact .tableName name
  | index target position => exact .index rfl rfl
  | group group => exact .group group
  | procedure procedure arguments pairwise => exact .procedure procedure _ _ pairwise
  | pipe left procedure arguments pairwise =>
    exact .pipe procedure pairwise rfl (forall₂_foldNodes outside arguments)
  | lambda parameter body => exact .lambda parameter rfl
  | command command arguments => exact .command command (forall₂_foldNodes outside arguments)

theorem forall₂_of_common {Item : Type} {fold : Item → Item} {items items' folded : List Item}
    (hitems : List.Forall₂ (fun item folded => folded = fold item) items folded)
    (hitems' : List.Forall₂ (fun item folded => folded = fold item) items' folded) :
    List.Forall₂ (fun item item' => fold item = fold item') items items' := by
  induction hitems generalizing items' with
  | nil =>
    cases hitems'
    exact List.Forall₂.nil
  | cons hitem _ ih =>
    cases hitems' with
    | cons hitem' hrest => exact List.Forall₂.cons (hitem.symm.trans hitem') (ih hrest)

theorem Value.sameShape_of_foldsAs {value value' : Value} (hvalues : value.FoldsAs value') :
    Value.SameShape Value.FoldsAs (Node.FoldsAs false) value value' := by
  have hleft := value.sameShape_fold
  have hright := value'.sameShape_fold
  rw [← hvalues] at hright
  generalize value.fold = folded at hleft hright
  cases hleft with
  | atom hatom =>
    cases hright with
    | atom => exact .atom hatom
    | array | closure => exact hatom.elim
  | array hitems =>
    cases hright with
    | atom hatom => exact hatom.elim
    | array hitems' => exact .array (forall₂_of_common hitems hitems')
  | closure identity parameter record hbody =>
    cases hright with
    | atom hatom => exact hatom.elim
    | closure _ _ _ hbody' => exact .closure identity parameter record (hbody.symm.trans hbody')

theorem Value.foldsAs_of_sameShape {value value' : Value}
    (hshape : Value.SameShape Value.FoldsAs (Node.FoldsAs false) value value') :
    value.FoldsAs value' := by
  cases hshape with
  | atom => rfl
  | @array items items' hitems =>
    have hfolded : List.Forall₂ Eq (items.map Value.fold) (items'.map Value.fold) := by
      rwa [List.forall₂_map_left_iff, List.forall₂_map_right_iff]
    rw [List.forall₂_eq_eq_eq] at hfolded
    rw [FoldsAs, Value.fold, Value.fold, foldItems_eq_map, foldItems_eq_map, hfolded]
  | closure identity parameter record hbody =>
    exact congrArg (Value.closure identity parameter · record) hbody

theorem forall₂_foldsAlike {outside : Bool} {nodes nodes' folded : List Node}
    (hnodes : List.Forall₂ (fun node folded => folded = Node.fold outside false node) nodes folded)
    (hnodes' : List.Forall₂ (fun node folded => folded = Node.fold outside false node) nodes'
      folded) : List.Forall₂ Node.FoldsAlike nodes nodes' :=
  (forall₂_of_common hnodes hnodes').imp fun _ _ hnode => ⟨outside, hnode⟩

theorem Node.sameShape_of_foldsAs {outside : Bool} {node node' : Node}
    (hnodes : node.FoldsAs outside node') (hfold : ¬ (node.fold outside false).IsNumbered) :
    Node.SameShape Value.FoldsAs Node.FoldsAlike (Node.FoldsAs false) node node' := by
  have hshape := node.sameShape_fold outside hfold
  have hshape' := node'.sameShape_fold outside (hnodes ▸ hfold)
  rw [← hnodes] at hshape'
  generalize node.fold outside false = folded at hshape hshape'
  cases hshape with
  | literal hvalue =>
    cases hshape' with
    | literal hvalue' => exact .literal (hvalue.symm.trans hvalue')
  | parameter name =>
    cases hshape'
    exact .parameter name
  | unary operator hoperand =>
    cases hshape' with
    | unary _ hoperand' => exact .unary operator ⟨outside, hoperand.symm.trans hoperand'⟩
  | binary operator hleft hright =>
    cases hshape' with
    | binary _ hleft' hright' =>
      exact .binary operator ⟨outside, hleft.symm.trans hleft'⟩
        ⟨outside, hright.symm.trans hright'⟩
  | call function harguments =>
    cases hshape' with
    | call _ harguments' => exact .call function (forall₂_foldsAlike harguments harguments')
  | test predicate harguments =>
    cases hshape' with
    | test _ harguments' => exact .test predicate (forall₂_foldsAlike harguments harguments')
  | array helements =>
    cases hshape' with
    | array helements' => exact .array (forall₂_foldsAlike helements helements')
  | tableName name =>
    cases hshape'
    exact .tableName name
  | index htarget hposition =>
    cases hshape' with
    | index htarget' hposition' =>
      exact .index ⟨outside, htarget.symm.trans htarget'⟩
        ⟨outside, hposition.symm.trans hposition'⟩
  | group group =>
    cases hshape'
    exact .group group
  | procedure procedure arguments _ pairwise =>
    cases hshape'
    exact .procedure procedure arguments _ pairwise
  | pipe procedure pairwise hleft harguments =>
    cases hshape' with
    | pipe _ _ hleft' harguments' =>
      exact .pipe procedure pairwise ⟨outside, hleft.symm.trans hleft'⟩
        (forall₂_foldsAlike harguments harguments')
  | lambda parameter hbody =>
    cases hshape' with
    | lambda _ hbody' => exact .lambda parameter (hbody.symm.trans hbody')
  | command command harguments =>
    cases hshape' with
    | command _ harguments' => exact .command command (forall₂_foldsAlike harguments harguments')

/-- Expressions that are folded into one number come out alike. -/
theorem Node.sameMeaning_of_foldsAs {outside : Bool} {node node' : Node}
    (hnodes : node.FoldsAs outside node') (hfold : (node.fold outside false).IsNumbered) :
    Node.SameMeaning Value.FoldsAs node node' := by
  have hsettles := settles_of_isNumbered_fold outside false node hfold
  have hsettles' := settles_of_isNumbered_fold outside false node' (hnodes ▸ hfold)
  rw [← hnodes] at hsettles'
  have halike : ∀ {evaluation evaluation' : Eval Value} {result : Option Value},
      SameYields evaluation (Eval.only result) → SameYields evaluation' (Eval.only result) →
        Alike Value.FoldsAs evaluation evaluation' := by
    intro evaluation evaluation' result hleft hright
    refine (Alike.of_sameYields (hleft.trans hright.symm)).mono fun value other heq => ?_
    exact congrArg Value.fold heq
  constructor
  · exact fun deeper deeper' setting setting' record =>
      halike (hsettles.evaluateWith deeper setting record)
        (hsettles'.evaluateWith deeper' setting' record)
  · exact fun deeper deeper' setting setting' scope scope' record =>
      halike (hsettles.evaluateIn deeper setting scope record)
        (hsettles'.evaluateIn deeper' setting' scope' record)

/-- Equality of values and expressions with minus signs taken into numbers. -/
def Likeness.folded : Likeness where
  Values := Value.FoldsAs
  Nodes := Node.FoldsAlike
  Bodies := Node.FoldsAs false
  nodes_of_bodies hnodes := ⟨false, hnodes⟩
  values_iff := ⟨Value.sameShape_of_foldsAs, Value.foldsAs_of_sameShape⟩
  nodes_shape := by
    rintro node node' ⟨outside, hnodes⟩
    by_cases hfold : (node.fold outside false).IsNumbered
    · exact .inr (Node.sameMeaning_of_foldsAs hnodes hfold)
    · exact .inl (Node.sameShape_of_foldsAs hnodes hfold)
  display hvalues labels := by
    rw [← Value.display_fold, ← hvalues, Value.display_fold]

theorem settings_folded (setting : Setting) : Likeness.folded.Settings setting setting where
  repository := rfl
  named _ _ := rfl
  entry table key := by
    cases (setting.environment.tableEntry table key).toOption with
    | none => exact .none
    | some node => exact .some ⟨false, rfl⟩

/-! ## What is given -/

/-- Equal values, where closures with the same text for their bodies are equal. -/
inductive Value.EqualShown : Value → Value → Prop
  | atom {value : Value} (hatom : value.IsAtom) : EqualShown value value
  | array {items items' : List Value} (hitems : List.Forall₂ EqualShown items items') :
    EqualShown (.array items) (.array items')
  | closure {body body' : Node} (identity : Nat) (parameter : String)
    (record : Option RecordRef) (htext : ∀ labels, body'.text labels = body.text labels) :
    EqualShown (.closure identity parameter body record) (.closure identity parameter body' record)

mutual

theorem Value.FoldsAs.equalShown (value : Value) {value' : Value}
    (hvalues : value.FoldsAs value') : value.EqualShown value' := by
  have hshape := Value.sameShape_of_foldsAs hvalues
  cases value with
  | array items =>
    cases hshape with
    | atom hatom => exact hatom.elim
    | array hitems => exact .array (equalShown_of_forall₂ items hitems)
  | closure identity parameter body record =>
    cases hshape with
    | atom hatom => exact hatom.elim
    | closure _ _ _ hbody =>
      refine .closure identity parameter record fun labels => ?_
      rw [← Node.text_fold, ← hbody, Node.text_fold]
  | _ =>
    cases hshape
    exact .atom trivial

theorem equalShown_of_forall₂ (items : List Value) {items' : List Value}
    (hitems : List.Forall₂ Value.FoldsAs items items') :
    List.Forall₂ Value.EqualShown items items' := by
  cases items with
  | nil =>
    cases hitems
    exact List.Forall₂.nil
  | cons item rest =>
    cases hitems with
    | cons hitem hrest =>
      exact List.Forall₂.cons (Value.FoldsAs.equalShown item hitem)
        (equalShown_of_forall₂ rest hrest)

end

/-- Expressions that are folded alike come out alike in every setting. -/
theorem Node.FoldsAs.evaluate_alike {outside : Bool} {node node' : Node}
    (hnodes : node.FoldsAs outside node') (setting : Setting) (record : Option RecordRef) :
    Alike Value.EqualShown (node.evaluate setting record) (node'.evaluate setting record) :=
  (Likeness.evaluate_alike (settings_folded setting) ⟨outside, hnodes⟩ record).mono
    fun value _ hvalues => Value.FoldsAs.equalShown value hvalues

end Patchwork
