import Patchwork.Proofs.Expression.Spelling

/-!
# Reading what was written

The words of a writable expression are read as that expression.  Reading an operand
looks one word ahead, so what an expression is depends on the kind of the word after it:
an operand may be followed by an operator or a closing word, a whole expression only by
a closing word, and the target of an index by its bracket.
-/

namespace Patchwork

open Reader

namespace Word

/-- Whether a word ends an expression. -/
def closes (word : Word) : Bool :=
  match word.kind with
  | .rightParen | .rightBracket | .comma | .finish => true
  | _ => false

/-- A word that ends an operand. -/
structure EndsOperand (word : Word) : Prop where
  notBracket : word.kind ≠ .leftBracket
  notParen : word.kind ≠ .leftParen
  notArrow : ¬ (word.kind = .operator ∧ word.text = "=>")

theorem closes_cases {word : Word} (hword : word.closes = true) :
    word.kind = .rightParen ∨ word.kind = .rightBracket ∨ word.kind = .comma ∨
      word.kind = .finish := by
  rw [closes] at hword
  split at hword <;> simp_all

theorem endsOperand_of_closes {word : Word} (hword : word.closes = true) : word.EndsOperand := by
  obtain hkind | hkind | hkind | hkind := closes_cases hword
  all_goals exact ⟨by simp [hkind], by simp [hkind], by simp [hkind]⟩

theorem not_operator_of_closes {word : Word} (hword : word.closes = true) :
    word.kind ≠ .operator := by
  obtain hkind | hkind | hkind | hkind := closes_cases hword
  all_goals simp [hkind]

theorem endsOperand_operator (operator : BinaryOperator) :
    (Word.operator operator.symbol).EndsOperand := by
  refine ⟨nofun, nofun, ?_⟩
  cases operator <;> decide

end Word

theorem UnaryOperator.ofSymbol?_symbol (operator : UnaryOperator) :
    ofSymbol? operator.symbol = some operator := by
  cases operator <;> decide

namespace Connective

theorem ofToken?_of_kind {token : Token} (hkind : token.kind ≠ .operator) :
    ofToken? token = none := by
  rw [ofToken?, if_neg (by simp [hkind])]

theorem ofToken?_symbol {token : Token} {operator : BinaryOperator}
    (htoken : token.word = .operator operator.symbol) :
    ofToken? token = some (.operator operator) := by
  have hkind : token.kind = .operator := Token.kind_eq htoken
  have htext : token.text = operator.symbol := Token.text_eq htoken
  have harrow : (operator.symbol == "->") = false := by
    cases operator <;> decide
  rw [ofToken?, if_pos (by simp [hkind]), htext, if_neg (by simp [harrow]),
    BinaryOperator.ofSymbol?_symbol, Option.map_some]

theorem level_lt_operandLevel (operator : Connective) : operator.level < operandLevel := by
  cases operator with
  | arrow => decide
  | operator between => cases between <;> decide

end Connective

/-! ## Operators and indexes that do not go on -/

section

variable {names : Names} {budget level : Nat} {node : Node} {word : Word} {tail : List Word}

theorem readOperations_stops (hbudget : 0 < budget) (hword : word.kind ≠ .operator) :
    Reads (readOperations budget names level node) [] (word :: tail) node := by
  obtain ⟨budget, rfl⟩ := Nat.exists_eq_succ_of_ne_zero (Nat.ne_of_gt hbudget)
  rw [readOperations]
  refine .current rfl fun token htoken => ?_
  rw [Connective.ofToken?_of_kind (by rw [Token.kind_eq htoken]; exact hword)]
  exact .pure _ _

/-- No operator goes on with the operand of an operator before it. -/
theorem readOperations_operandLevel (hbudget : 0 < budget) :
    Reads (readOperations budget names operandLevel node) [] (word :: tail) node := by
  obtain ⟨budget, rfl⟩ := Nat.exists_eq_succ_of_ne_zero (Nat.ne_of_gt hbudget)
  rw [readOperations]
  refine .current rfl fun token htoken => ?_
  cases hoperator : Connective.ofToken? token with
  | none => exact .pure _ _
  | some operator =>
    simp only [operator.level_lt_operandLevel, if_true]
    exact .pure _ _

theorem readIndexes_stops (hbudget : 0 < budget) (hword : word.kind ≠ .leftBracket) :
    Reads (readIndexes budget names node) [] (word :: tail) node := by
  obtain ⟨budget, rfl⟩ := Nat.exists_eq_succ_of_ne_zero (Nat.ne_of_gt hbudget)
  rw [readIndexes]
  refine .at? rfl ?_
  rw [if_neg (by simp [hword])]
  exact .pure _ _

end

namespace Node

/-- The first word of an expression is none that ends one. -/
def Starts (node : Node) : Prop :=
  ∃ first others, node.words = first :: others ∧ first.closes = false

theorem Starts.length_pos {node : Node} (hnode : node.Starts) : 0 < node.words.length := by
  obtain ⟨first, others, hwords, -⟩ := hnode
  simp [hwords]

/-- A whole expression is read from its words. -/
structure IsRead (names : Names) (node : Node) : Prop where
  starts : node.Starts
  reads : ∀ {budget : Nat} (level : Nat) {word : Word} (tail : List Word),
    8 * node.words.length ≤ budget → word.closes = true →
      Reads (readOperation budget names level) node.words (word :: tail) node

/-- An operand is read from its words when an allowed word follows. -/
def IsOperand (follows : Word → Prop) (names : Names) (node : Node) : Prop :=
  ∀ (budget : Nat) {word : Word} (tail : List Word), 8 * node.words.length ≤ budget + 1 →
    follows word → Reads (readOperand budget names) node.words (word :: tail) node

/-- What stands in front of indexes is read from its words when an allowed word follows;
then come the indexes. -/
def IsTarget (follows : Word → Prop) (names : Names) (node : Node) : Prop :=
  ∀ (budget : Nat) {word : Word} {more rest tail : List Word} {result : Node},
    8 * node.words.length ≤ budget + 1 → more ++ rest = word :: tail → follows word →
      (∀ left, budget ≤ left + 2 * node.words.length →
        Reads (readIndexes left names node) more rest result) →
        Reads (readOperand budget names) (node.words ++ more) rest result

section

variable {names : Names} {node : Node}

theorem IsTarget.mono {follows others : Word → Prop} (hnode : node.IsTarget follows names)
    (hfollows : ∀ word, others word → follows word) : node.IsTarget others names :=
  fun budget _ _ _ _ _ hbudget hmore hword =>
    hnode budget hbudget hmore (hfollows _ hword)

theorem IsTarget.isOperand {follows : Word → Prop} (hnode : node.IsTarget follows names)
    (hstarts : node.Starts) (hfollows : ∀ word, follows word → word.kind ≠ .leftBracket) :
    node.IsOperand follows names := by
  intro budget word tail hbudget hword
  have hlength := hstarts.length_pos
  have hread : Reads (readOperand budget names) (node.words ++ []) (word :: tail) node :=
    hnode budget hbudget rfl hword fun left hleft =>
      readIndexes_stops (by omega) (hfollows word hword)
  rwa [List.append_nil] at hread

theorem IsOperand.isRead {follows : Word → Prop} (hnode : node.IsOperand follows names)
    (hstarts : node.Starts) (hfollows : ∀ word : Word, word.closes = true → follows word) :
    node.IsRead names := by
  refine ⟨hstarts, fun {budget} level {word} tail hbudget hword => ?_⟩
  have hlength := hstarts.length_pos
  obtain ⟨budget, rfl⟩ := Nat.exists_eq_succ_of_ne_zero (by omega : budget ≠ 0)
  rw [readOperation]
  exact .andThen (hnode budget tail hbudget (hfollows word hword))
    (readOperations_stops (by omega) (Word.not_operator_of_closes hword))

/-- An operand in front of an operator before one operand ends where that ends. -/
theorem IsOperand.reads_operandLevel {follows : Word → Prop} (hnode : node.IsOperand follows names)
    {budget : Nat} {word : Word} (tail : List Word) (hbudget : 8 * node.words.length ≤ budget)
    (hstarts : node.Starts) (hword : follows word) :
    Reads (readOperation budget names operandLevel) node.words (word :: tail) node := by
  have hlength := hstarts.length_pos
  obtain ⟨budget, rfl⟩ := Nat.exists_eq_succ_of_ne_zero (by omega : budget ≠ 0)
  rw [readOperation]
  exact .andThen (hnode budget tail hbudget hword) (readOperations_operandLevel (by omega))

/-- What is read without indexes is a target. -/
theorem isTarget_of_primary {follows : Word → Prop} {first : Word} {others : List Word}
    (hfirst : node.words = first :: others) (hkind : first.kind ≠ .operator)
    (hprimary : ∀ {budget : Nat} {word : Word} (tail : List Word),
      8 * node.words.length ≤ budget + 3 → follows word →
        Reads (readPrimary (budget + 1) names) node.words (word :: tail) node) :
    node.IsTarget follows names := by
  intro budget word more rest tail result hbudget hmore hword hindexes
  have hlength : 0 < node.words.length := by simp [hfirst]
  obtain ⟨budget, rfl⟩ := Nat.exists_eq_add_of_le' (by omega : 2 ≤ budget)
  have hread : Reads (readPrimary (budget + 1) names >>= readIndexes (budget + 1) names)
      (node.words ++ more) rest result := by
    refine .bind ?_ (hindexes (budget + 1) (by omega))
    rw [hmore]
    exact hprimary tail (by omega) hword
  rw [readOperand]
  refine .current (by rw [hfirst]; rfl) fun token htoken => ?_
  rw [if_neg (by simp [Token.kind_eq htoken, hkind])]
  exact hread

end

/-! ## Lists and calls -/

theorem wordKind_cases (name : String) :
    Scan.wordKind name = .identifier ∨ ∃ flag, Scan.wordKind name = .bool flag := by
  rw [Scan.wordKind]
  split_ifs
  · exact .inr ⟨true, rfl⟩
  · exact .inr ⟨false, rfl⟩
  · exact .inl rfl

theorem closes_named (name : String) : (Word.named name).closes = false := by
  rw [Word.closes, Word.named]
  obtain hkind | ⟨flag, hkind⟩ := wordKind_cases name
  all_goals rw [hkind]

theorem starts_of_words {node : Node} {first : Word} {others : List Word}
    (hwords : node.words = first :: others) (hfirst : first.closes = false) : node.Starts :=
  ⟨first, others, hwords, hfirst⟩

section

variable {names : Names} {nodes : List Node} {budget : Nat} {word : Word} {tail : List Word}

theorem moreWords_closes (nodes : List Node) (tail : List Word) (hword : word.closes = true) :
    ∃ following others, moreWords nodes ++ word :: tail = following :: others ∧
      following.closes = true := by
  cases nodes with
  | nil => exact ⟨word, tail, rfl, hword⟩
  | cons first others => exact ⟨.comma, _, rfl, rfl⟩

/-- An expression of a list is read, whether or not more follow. -/
theorem IsRead.bind_more {node : Node} (hnode : node.IsRead names) {Result : Type}
    {continued : Node → Reader Result} {result : Result}
    (hbudget : 8 * node.words.length ≤ budget) (hword : word.closes = true)
    (hcontinued : Reads (continued node) (moreWords nodes) (word :: tail) result) :
    Reads (readOperation budget names 0 >>= continued) (node.words ++ moreWords nodes)
      (word :: tail) result := by
  obtain ⟨following, others, hfollowing, hcloses⟩ := moreWords_closes nodes tail hword
  refine .bind ?_ hcontinued
  rw [hfollowing]
  exact hnode.reads 0 others hbudget hcloses

theorem reads_more (hnodes : ∀ node ∈ nodes, node.IsRead names)
    (hbudget : 8 * (moreWords nodes).length + 1 ≤ budget) (hword : word.closes = true)
    (hcomma : word.kind ≠ .comma) :
    Reads (readMore budget names) (moreWords nodes) (word :: tail) nodes := by
  induction nodes generalizing budget with
  | nil =>
    obtain ⟨budget, rfl⟩ := Nat.exists_eq_succ_of_ne_zero (by omega : budget ≠ 0)
    rw [readMore]
    refine .at? rfl ?_
    rw [if_neg (by simp [hcomma])]
    exact .pure _ _
  | cons first others ih =>
    obtain ⟨budget, rfl⟩ := Nat.exists_eq_succ_of_ne_zero (by omega : budget ≠ 0)
    simp only [moreWords, List.length_cons, List.length_append] at hbudget
    have hothers : Reads (readMore budget names) (moreWords others) (word :: tail) others :=
      ih (fun node hnode => hnodes node (List.mem_cons_of_mem _ hnode)) (by omega)
    have hfirst : first.IsRead names := hnodes first List.mem_cons_self
    rw [readMore]
    refine .at? rfl ?_
    rw [if_pos (by rfl)]
    refine .advance (by simp) (by decide) fun _ _ => ?_
    exact IsRead.bind_more hfirst (by omega) hword (.andThen hothers (.pure _ _))

/-- What stands between brackets is read as a list. -/
theorem reads_list {closing : TokenKind}
    (hnodes : ∀ node ∈ nodes, node.IsRead names)
    (hbudget : 8 * (listWords nodes).length + 2 ≤ budget) (hword : word.closes = true)
    (hclosing : word.kind = closing) (hcomma : closing ≠ .comma) :
    Reads (readList budget names closing) (listWords nodes) (word :: tail) nodes := by
  obtain ⟨budget, rfl⟩ := Nat.exists_eq_succ_of_ne_zero (by omega : budget ≠ 0)
  cases nodes with
  | nil =>
    rw [readList]
    refine .at? rfl ?_
    rw [if_pos (by simp [hclosing])]
    exact .pure _ _
  | cons first others =>
    simp only [listWords, List.length_append] at hbudget
    have hfirst : first.IsRead names := hnodes first List.mem_cons_self
    have hothers : Reads (readMore budget names) (moreWords others) (word :: tail) others :=
      reads_more (fun node hnode => hnodes node (List.mem_cons_of_mem _ hnode)) (by omega) hword
        (hclosing ▸ hcomma)
    obtain ⟨start, words, hwords, hstart⟩ := hfirst.starts
    have hkind : start.kind ≠ closing := by
      rintro hkind
      rw [Word.closes, hkind, ← hclosing] at hstart
      rw [Word.closes, hstart] at hword
      exact Bool.noConfusion hword
    rw [readList]
    refine .at? (by rw [listWords, hwords]; rfl) ?_
    rw [if_neg (by simp [hkind])]
    exact IsRead.bind_more hfirst (by omega) hword (.andThen hothers (.pure _ _))

theorem reads_arguments (hnodes : ∀ node ∈ nodes, node.IsRead names)
    (hbudget : 8 * (listWords nodes).length + 3 ≤ budget) :
    Reads (readArguments budget names) (.leftParen :: (listWords nodes ++ [.rightParen]))
      (word :: tail) nodes := by
  obtain ⟨budget, rfl⟩ := Nat.exists_eq_succ_of_ne_zero (by omega : budget ≠ 0)
  have hlist : Reads (readList budget names .rightParen) (listWords nodes)
      (.rightParen :: word :: tail) nodes := reads_list hnodes (by omega) rfl rfl nofun
  rw [readArguments]
  refine .expect (by simp) rfl nofun fun _ _ => .bind hlist ?_
  exact .expect (by simp) rfl nofun fun _ _ => .pure _ _

end

/-- The node of a call: its words, and what is made of it when it is read. -/
structure IsCall (name : String) (arguments : List Node) (node : Node) : Prop where
  words : node.words = .named name :: .leftParen :: (listWords arguments ++ [.rightParen])
  notPairwise : (name == pairwiseName) = false
  makes : ∃ callee, Callee.named? name = some callee ∧
    ∀ token, makeCall token callee arguments = Pure.pure node

theorem isCall_call {function : Function} {arguments : List Node}
    (hcount : function.arity.Accepts arguments.length) :
    IsCall function.name arguments (.call function arguments) := by
  refine ⟨rfl, by cases function <;> decide, _, Callee.named?_function_name function, ?_⟩
  intro token
  rw [makeCall, Callee.arity, Arity.problem?_eq_none_iff.mpr hcount]

theorem isCall_test {predicate : Predicate} {arguments : List Node}
    (hcount : predicate.arity.Accepts arguments.length) :
    IsCall predicate.name arguments (.test predicate arguments) := by
  refine ⟨rfl, by cases predicate <;> decide, _, Callee.named?_predicate_name predicate, ?_⟩
  intro token
  rw [makeCall, Callee.arity, Arity.problem?_eq_none_iff.mpr hcount]

section

variable {names : Names} {name : String} {arguments : List Node} {node : Node} {budget : Nat}
  {word : Word} {tail : List Word}

theorem IsCall.reads (hcall : IsCall name arguments node)
    (harguments : ∀ argument ∈ arguments, argument.IsRead names)
    (hbudget : 8 * (listWords arguments).length + 4 ≤ budget) {token : Token}
    (htoken : token.text = name) :
    Reads (readCall budget names token) (.leftParen :: (listWords arguments ++ [.rightParen]))
      (word :: tail) node := by
  obtain ⟨callee, hcallee, hmakes⟩ := hcall.makes
  obtain ⟨budget, rfl⟩ := Nat.exists_eq_succ_of_ne_zero (by omega : budget ≠ 0)
  rw [readCall, htoken, hcall.notPairwise, hcallee]
  exact .andThen (reads_arguments harguments (by omega)) (hmakes token ▸ .pure _ _)

theorem IsCall.isTarget (hcall : IsCall name arguments node)
    (harguments : ∀ argument ∈ arguments, argument.IsRead names) :
    node.IsTarget (fun _ => True) names := by
  have hnamed : (Word.named name).kind ≠ .operator ∧ (Word.named name).kind ≠ .finish := by
    obtain hkind | ⟨flag, hkind⟩ := wordKind_cases name
    all_goals simp [Word.named, hkind]
  refine isTarget_of_primary hcall.words hnamed.1 fun {budget} {word} tail hbudget _ => ?_
  have hlength : node.words.length = (listWords arguments).length + 3 := by
    simp [hcall.words]
  rw [hcall.words, readPrimary]
  refine .current rfl fun token htoken => ?_
  have hkind : token.kind = Scan.wordKind name := Token.kind_eq htoken
  obtain hname | ⟨flag, hflag⟩ := wordKind_cases name
  · simp only [hkind, hname]
    obtain ⟨budget, rfl⟩ := Nat.exists_eq_succ_of_ne_zero (by omega : budget ≠ 0)
    rw [readIdentifier]
    refine .next rfl hnamed.2 fun following hfollowing => ?_
    refine .advance (by simp) hnamed.2 fun token htoken => ?_
    have hparen : following.kind = .leftParen := Token.kind_eq hfollowing
    have harrow : following.isOperator "=>" = false := by
      simp [Token.isOperator, hparen]
    simp only [harrow, hparen]
    exact hcall.reads harguments (by omega) (Token.text_eq htoken)
  · simp only [hkind, hflag]
    refine .next rfl hnamed.2 fun following hfollowing => ?_
    refine .advance (by simp) hnamed.2 fun _ _ => ?_
    have hparen : following.kind = .leftParen := Token.kind_eq hfollowing
    simp only [hparen]
    exact hcall.reads harguments (by omega) (Token.text_eq htoken)

end

/-! ## Each kind of expression -/

/-- A word that does not make a call of the name before it. -/
def NotParen (word : Word) : Prop :=
  word.kind ≠ .leftParen

section

variable {names : Names}

theorem isTarget_integer (number : Int) :
    (Node.literal (.integer number)).IsTarget NotParen names := by
  refine isTarget_of_primary rfl nofun fun tail _ _ => ?_
  rw [readPrimary]
  refine .current rfl fun token htoken => ?_
  simp only [Token.kind_eq htoken]
  exact .advance (by simp) nofun fun _ _ => .pure _ _

theorem isTarget_string (content : String) :
    (Node.literal (.string content)).IsTarget NotParen names := by
  refine isTarget_of_primary rfl nofun fun tail _ _ => ?_
  rw [readPrimary]
  refine .current rfl fun token htoken => ?_
  simp only [Token.kind_eq htoken, Word.quoted]
  exact .advance (by simp) nofun fun _ _ => .pure _ _

theorem isTarget_boolean (flag : Bool) :
    (Node.literal (.boolean flag)).IsTarget NotParen names := by
  have hnamed : Word.named (if flag then "true" else "false") =
      ⟨.bool flag, if flag then "true" else "false"⟩ := by
    cases flag <;> rfl
  refine isTarget_of_primary rfl (by simp [hnamed]) fun tail _ hword => ?_
  rw [readPrimary]
  refine .current rfl fun token htoken => ?_
  rw [hnamed] at htoken
  simp only [Token.kind_eq htoken]
  refine .next rfl (by simp [hnamed]) fun following hfollowing => ?_
  refine .advance (by simp) (by simp [hnamed]) fun _ _ => ?_
  rw [if_neg (by simp [Token.kind_eq hfollowing]; exact hword)]
  exact .pure _ _

theorem isTarget_array {elements : List Node}
    (helements : ∀ element ∈ elements, element.IsRead names) :
    (Node.array elements).IsTarget (fun _ => True) names := by
  refine isTarget_of_primary rfl nofun fun {budget} {word} tail hbudget _ => ?_
  simp only [words, List.length_cons, List.length_append, List.length_nil] at hbudget
  have hlist : Reads (readList budget names .rightBracket) (listWords elements)
      (.rightBracket :: word :: tail) elements :=
    reads_list helements (by omega) rfl rfl nofun
  rw [readPrimary]
  refine .current rfl fun token htoken => ?_
  simp only [Token.kind_eq htoken, Word.leftBracket]
  refine .advance (by simp) nofun fun _ _ => .bind hlist ?_
  exact .expect (by simp) rfl nofun fun _ _ => .pure _ _

theorem reads_binary {operator : BinaryOperator} {left right : Node}
    (hleft : left.IsOperand Word.EndsOperand names) (hright : right.IsRead names) {budget : Nat}
    (hbudget : 8 * (left.words.length + right.words.length + 1) ≤ budget) (tail : List Word) :
    Reads (readOperation budget names 0) (left.words ++ .operator operator.symbol :: right.words)
      (.rightParen :: tail) (.binary operator left right) := by
  obtain ⟨budget, rfl⟩ := Nat.exists_eq_add_of_le' (by omega : 2 ≤ budget)
  rw [readOperation]
  refine .bind (hleft (budget + 1) _ (by omega) (Word.endsOperand_operator operator)) ?_
  rw [readOperations]
  refine .current rfl fun token htoken => ?_
  rw [Connective.ofToken?_symbol htoken]
  simp only [Nat.not_lt_zero, if_false]
  refine .advance (by simp) nofun fun _ _ => ?_
  refine .andThen (hright.reads _ tail (by omega) rfl) ?_
  exact .andThen (.pure _ _) (readOperations_stops (by omega) nofun)

theorem isTarget_binary {operator : BinaryOperator} {left right : Node}
    (hleft : left.IsOperand Word.EndsOperand names) (hright : right.IsRead names) :
    (Node.binary operator left right).IsTarget (fun _ => True) names := by
  refine isTarget_of_primary rfl nofun fun {budget} {word} tail hbudget _ => ?_
  simp only [words, List.length_cons, List.length_append, List.length_nil] at hbudget
  have hwords : (Node.binary operator left right).words = .leftParen ::
      ((left.words ++ .operator operator.symbol :: right.words) ++ [.rightParen]) := by
    simp [words]
  rw [hwords, readPrimary]
  refine .current rfl fun token htoken => ?_
  simp only [Token.kind_eq htoken, Word.leftParen]
  refine .advance (by simp) nofun fun _ _ => ?_
  refine .bind (reads_binary hleft hright (by omega) (word :: tail)) ?_
  exact .expect (by simp) rfl nofun fun _ _ => .pure _ _

/-- An index goes on from what it stands behind. -/
theorem isTarget_index {target position : Node} {follows : Word → Prop}
    (htarget : target.IsTarget follows names) (hfollows : follows .leftBracket)
    (hposition : position.IsRead names) :
    (Node.index target position).IsTarget (fun _ => True) names := by
  intro budget word more rest tail result hbudget hmore _ hindexes
  simp only [words, List.length_cons, List.length_append, List.length_nil] at hbudget hindexes
  have hwords : (Node.index target position).words ++ more =
      target.words ++ .leftBracket :: (position.words ++ .rightBracket :: more) := by
    simp [words]
  rw [hwords]
  refine htarget budget (by omega) rfl hfollows fun left hleft => ?_
  obtain ⟨left, rfl⟩ := Nat.exists_eq_succ_of_ne_zero (by omega : left ≠ 0)
  rw [readIndexes]
  refine .at? rfl ?_
  rw [if_pos (by rfl)]
  refine .advance (by simp) nofun fun _ _ => ?_
  refine .bind (hposition.reads 0 _ (by omega) rfl) ?_
  exact .expect (by simp [hmore]) rfl nofun fun _ _ => hindexes left (by omega)

/-- What starts with a name that is no truth value. -/
theorem isTarget_of_identifier {node : Node} {follows : Word → Prop} {name : String}
    {others : List Word} (hname : IsName name) (hwords : node.words = .named name :: others)
    (hidentifier : ∀ {budget : Nat} {word : Word} (tail : List Word),
      8 * node.words.length ≤ budget + 4 → follows word →
        Reads (readIdentifier (budget + 1) names) node.words (word :: tail) node) :
    node.IsTarget follows names := by
  have hkind : (Word.named name).kind = .identifier := hname.kind
  refine isTarget_of_primary hwords (by simp [hkind]) fun {budget} {word} tail hbudget hword => ?_
  have hlength : 0 < node.words.length := by simp [hwords]
  obtain ⟨budget, rfl⟩ := Nat.exists_eq_succ_of_ne_zero (by omega : budget ≠ 0)
  rw [readPrimary]
  refine .current (by rw [hwords]; rfl) fun token htoken => ?_
  simp only [Token.kind_eq htoken, hkind]
  exact hidentifier tail (by omega) hword

theorem isTarget_tableName {name : String} (hname : IsName name) :
    (Node.tableName name).IsTarget (fun word => word.kind = .leftBracket) names := by
  have hfinish : (Word.named name).kind ≠ .finish := by simp [Word.named, hname.kind]
  refine isTarget_of_identifier hname rfl fun tail _ hword => ?_
  rw [readIdentifier]
  refine .next rfl hfinish fun following hfollowing => ?_
  have hkind : following.kind = .leftBracket := (Token.kind_eq hfollowing).trans hword
  refine .advance (by simp) hfinish fun token htoken => ?_
  have htext : token.text = name := Token.text_eq htoken
  simp only [Token.isOperator, hkind, htext]
  exact .pure _ _

theorem isTarget_parameter {name : String} (hname : IsName name)
    (hknown : name ∈ names.parameters) :
    (Node.parameter name).IsTarget Word.EndsOperand names := by
  have hfinish : (Word.named name).kind ≠ .finish := by simp [Word.named, hname.kind]
  refine isTarget_of_identifier hname rfl fun tail _ hword => ?_
  rw [readIdentifier]
  refine .next rfl hfinish fun following hfollowing => ?_
  refine .advance (by simp) hfinish fun token htoken => ?_
  have htext : token.text = name := Token.text_eq htoken
  have harrow : following.isOperator "=>" = false := by
    rw [Token.isOperator, Token.kind_eq hfollowing, Token.text_eq hfollowing]
    simpa using hword.notArrow
  rw [harrow, if_neg (by simp), if_neg (by simp [Token.kind_eq hfollowing, hword.notBracket]),
    if_neg (by simp [Token.kind_eq hfollowing, hword.notParen]), readName, htext,
    if_pos (by simpa using hknown)]
  exact .pure _ _

theorem isTarget_lambda {name : String} {body : Node} (hname : IsName name)
    (hbody : body.IsRead (names.within name)) :
    (Node.lambda name body).IsTarget (fun word => word.closes = true) names := by
  have hfinish : (Word.named name).kind ≠ .finish := by simp [Word.named, hname.kind]
  refine isTarget_of_identifier hname rfl fun {budget} {word} tail hbudget hword => ?_
  simp only [words, List.length_cons] at hbudget
  rw [readIdentifier]
  refine .next rfl hfinish fun following hfollowing => ?_
  refine .advance (by simp) hfinish fun token htoken => ?_
  have htext : token.text = name := Token.text_eq htoken
  have harrow : following.isOperator "=>" = true := by
    rw [Token.isOperator, Token.kind_eq hfollowing, Token.text_eq hfollowing]
    rfl
  rw [harrow, if_pos rfl, htext]
  refine .advance (by simp) nofun fun _ _ => ?_
  exact .andThen (hbody.reads bodyLevel tail (by omega) hword) (.pure _ _)

theorem isOperand_unary {operator : UnaryOperator} {operand : Node}
    (hoperand : operand.IsOperand Word.EndsOperand names) (hstarts : operand.Starts) :
    (Node.unary operator operand).IsOperand Word.EndsOperand names := by
  intro budget word tail hbudget hword
  simp only [words, List.length_cons] at hbudget
  obtain ⟨budget, rfl⟩ := Nat.exists_eq_succ_of_ne_zero (by omega : budget ≠ 0)
  rw [readOperand]
  refine .current rfl fun token htoken => ?_
  have hkind : token.kind = .operator := Token.kind_eq htoken
  have htext : token.text = operator.symbol := Token.text_eq htoken
  rw [if_pos (by simp [hkind]), htext, UnaryOperator.ofSymbol?_symbol]
  refine .advance (by simp) nofun fun _ _ => ?_
  exact .andThen (hoperand.reads_operandLevel tail (by omega) hstarts hword) (.pure _ _)

end

/-- How a writable expression is read, from what stands in front of indexes to a whole
expression. -/
structure IsParsed (names : Names) (node : Node) : Prop where
  target : node.takesIndex = true → node.IsTarget NotParen names
  operand : node.isLambda = false → node.IsOperand Word.EndsOperand names
  whole : node.IsRead names

namespace IsParsed

variable {names : Names} {node : Node} {follows : Word → Prop}

theorem of_operand (hplace : node.takesIndex = false) (hstarts : node.Starts)
    (hnode : node.IsOperand Word.EndsOperand names) : node.IsParsed names :=
  ⟨fun htakes => absurd (htakes.symm.trans hplace) (by simp), fun _ => hnode,
    hnode.isRead hstarts fun _ => Word.endsOperand_of_closes⟩

theorem of_target (hstarts : node.Starts) (hfollows : ∀ word, NotParen word → follows word)
    (hnode : node.IsTarget follows names) : node.IsParsed names := by
  have htarget : node.IsTarget NotParen names := hnode.mono hfollows
  have hoperand : node.IsOperand Word.EndsOperand names :=
    (htarget.mono fun _ hword => hword.notParen).isOperand hstarts fun _ hword => hword.notBracket
  exact ⟨fun _ => htarget, fun _ => hoperand,
    hoperand.isRead hstarts fun _ => Word.endsOperand_of_closes⟩

end IsParsed

theorem Writable.isParsed {names : Names} {node : Node} (hnode : node.Writable names) :
    node.IsParsed names := by
  induction hnode with
  | integer number =>
    exact .of_target (starts_of_words rfl rfl) (fun _ => id) (isTarget_integer number)
  | boolean flag =>
    exact .of_target (starts_of_words rfl (closes_named _)) (fun _ => id) (isTarget_boolean flag)
  | string _ =>
    exact .of_target (starts_of_words rfl rfl) (fun _ => id) (isTarget_string _)
  | @parameter _ name hname hknown =>
    have hstarts : (Node.parameter name).Starts := starts_of_words rfl (closes_named name)
    exact .of_operand rfl hstarts
      ((isTarget_parameter hname hknown).isOperand hstarts fun _ hword => hword.notBracket)
  | array _ helements =>
    exact .of_target (starts_of_words rfl rfl) (fun _ _ => trivial)
      (isTarget_array fun element hmem => (helements element hmem).whole)
  | call hcount _ harguments =>
    exact .of_target (starts_of_words rfl (closes_named _)) (fun _ _ => trivial)
      ((isCall_call hcount).isTarget fun argument hmem => (harguments argument hmem).whole)
  | test hcount _ harguments =>
    exact .of_target (starts_of_words rfl (closes_named _)) (fun _ _ => trivial)
      ((isCall_test hcount).isTarget fun argument hmem => (harguments argument hmem).whole)
  | @lambda _ name body hname _ hbody =>
    have hstarts : (Node.lambda name body).Starts := starts_of_words rfl (closes_named name)
    have hoperand := (isTarget_lambda hname hbody.whole).isOperand hstarts fun word hword =>
      (Word.endsOperand_of_closes hword).notBracket
    exact ⟨nofun, nofun, hoperand.isRead hstarts fun _ => id⟩
  | not _ hplain hoperand =>
    exact .of_operand rfl (starts_of_words rfl rfl)
      (isOperand_unary (hoperand.operand hplain) hoperand.whole.starts)
  | negative _ hplain _ hoperand =>
    exact .of_operand rfl (starts_of_words rfl rfl)
      (isOperand_unary (hoperand.operand hplain) hoperand.whole.starts)
  | binary _ hleftPlain _ _ hleft hright =>
    exact .of_target (starts_of_words rfl rfl) (fun _ _ => trivial)
      (isTarget_binary (hleft.operand hleftPlain) hright.whole)
  | entry htable _ hposition =>
    exact .of_target (starts_of_words rfl (closes_named _)) (fun _ _ => trivial)
      (isTarget_index (isTarget_tableName htable) rfl hposition.whole)
  | @index _ target position _ hplace _ htarget hposition =>
    have hstarts : (Node.index target position).Starts := by
      obtain ⟨first, others, hwords, hfirst⟩ := htarget.whole.starts
      exact ⟨first, _, by rw [words, hwords, List.cons_append], hfirst⟩
    exact .of_target hstarts (fun _ _ => trivial)
      (isTarget_index (htarget.target hplace) nofun hposition.whole)

/-- A text that is scanned as words which are read as an expression is read as it. -/
theorem ofText_of_reads {names : Names} {node : Node} {text : String} {tokens : List Token}
    {column : Nat} (hscan : Scan.ofText text = ⟨tokens ++ [⟨.finish, "", column⟩], none⟩)
    (hreads : Reads (readOperation (readingBudget (tokens.length + 1)) names 0)
      (tokens.map Token.word) [⟨.finish, ""⟩] node) :
    Node.ofText names text = .ok node := by
  let finish : Token := ⟨.finish, "", column⟩
  have hnode : readOperation (readingBudget (tokens ++ [finish]).length) names 0
      ⟨tokens ++ [finish], none⟩ = .ok (node, ⟨[finish], none⟩) := by
    rw [List.length_append]
    exact hreads tokens [finish] none rfl rfl
  have hcurrent : Reader.current ⟨tokens ++ [finish], none⟩ =
      .ok (tokens.headD finish, ⟨tokens ++ [finish], none⟩) := by
    cases tokens <;> rfl
  rw [Node.ofText, Reader.run, hscan]
  change Except.map Prod.fst (Reader.current ⟨tokens ++ [finish], none⟩ >>= fun first => _) = _
  rw [hcurrent]
  change Except.map Prod.fst (readOperation (readingBudget (tokens ++ [finish]).length) names 0
      ⟨tokens ++ [finish], none⟩ >>= fun read => _) = _
  rw [hnode]
  rfl

/-- A text with the words of an expression is read as it, if the words are. -/
theorem IsRead.ofText_eq {names : Names} {node : Node} (hnode : node.IsRead names) {text : String}
    {tokens : List Token} {column : Nat} (hwords : tokens.map Token.word = node.words)
    (hscan : Scan.ofText text = ⟨tokens ++ [⟨.finish, "", column⟩], none⟩) :
    Node.ofText names text = .ok node := by
  have hbudget : 8 * node.words.length ≤ readingBudget (tokens.length + 1) := by
    rw [← hwords, readingBudget, List.length_map]
    omega
  refine ofText_of_reads hscan ?_
  rw [hwords]
  exact hnode.reads 0 [] hbudget rfl

/-- Names without definitions and lambdas around. -/
def noNames : Names :=
  ⟨{}, fun _ => "", []⟩

end Node

end Patchwork
