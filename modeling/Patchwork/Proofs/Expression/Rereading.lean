import Patchwork.Proofs.Expression.Lookahead

/-!
# Reading again

Each reader takes again what it has taken, with any budget that is not smaller: an expression
in front of any word that may end it, which an arrow may unless it goes on with the expression,
a list in front of the word that ended it, and a call in front of any word.  So a part of a text
means in the text what it means on its own.
-/

namespace Patchwork

open Reader

/-- What is read with a budget is read again with another one: an expression wherever it may
end, a list in front of the word that ended it, and a call in front of any word. -/
structure ReadsAgain (budget larger : Nat) : Prop where
  operation : ∀ names level cursor, Again (Word.EndsAt level) (readOperation budget names level)
    (readOperation larger names level) cursor
  operations : ∀ names level left cursor, Again (Word.EndsAt level)
    (readOperations budget names level left) (readOperations larger names level left) cursor
  operand : ∀ names cursor, Again (Word.EndsAt operandLevel) (readOperand budget names)
    (readOperand larger names) cursor
  indexes : ∀ names target cursor, Again (Word.EndsAt operandLevel)
    (readIndexes budget names target) (readIndexes larger names target) cursor
  primary : ∀ names cursor, Again (Word.EndsAt operandLevel) (readPrimary budget names)
    (readPrimary larger names) cursor
  identifier : ∀ names token others fault?, token.kind = .identifier →
    Again (Word.EndsAt operandLevel) (readIdentifier budget names) (readIdentifier larger names)
      ⟨token :: others, fault?⟩
  list : ∀ names closing cursor, Again Word.Same (readList budget names closing)
    (readList larger names closing) cursor
  more : ∀ names cursor, Again Word.Same (readMore budget names) (readMore larger names) cursor
  arguments : ∀ names cursor, Again Word.Any (readArguments budget names)
    (readArguments larger names) cursor
  call : ∀ names token other cursor, other.word = token.word →
    Again Word.Any (readCall budget names token) (readCall larger names other) cursor

/-! ### What a word is, when it may be replaced -/

theorem Connective.kind_of_ofToken? {token : Token} {operator : Connective}
    (htoken : ofToken? token = some operator) : token.kind = .operator := by
  refine Decidable.byContradiction fun hkind => ?_
  rw [ofToken?_of_kind hkind] at htoken
  cases htoken

/-- A word that ends an operand makes no more of the name before it. -/
theorem Word.EndsOperand.no_more {token : Token} (htoken : token.word.EndsOperand) :
    token.isOperator "=>" = false ∧ (token.kind == .leftBracket) = false ∧
      (token.kind == .leftParen) = false := by
  refine ⟨?_, beq_false_of_ne htoken.notBracket, beq_false_of_ne htoken.notParen⟩
  rw [Token.isOperator, Bool.and_eq_false_iff]
  simpa [Token.word, Decidable.imp_iff_not_or] using htoken.notArrow

/-- The arrow stands between operands. -/
theorem Connective.ofToken?_arrow {token : Token} (htoken : token.word = .arrow) :
    ofToken? token = some .arrow := by
  have hkind : token.kind = .operator := Token.kind_eq htoken
  have htext : token.text = "->" := Token.text_eq htoken
  rw [ofToken?, if_pos (by simp [hkind]), htext, if_pos (by decide)]

namespace Word.EndsAt

variable {level : Nat} {token other : Token}

theorem ofSymbol?_eq (hother : Word.EndsAt level token.word other.word) :
    (if other.kind == .operator then UnaryOperator.ofSymbol? other.text else none) =
      if token.kind == .operator then UnaryOperator.ofSymbol? token.text else none := by
  rcases hother with hsame | ⟨htoken, hother⟩
  · rw [Token.kind_eq hsame, Token.text_eq hsame]
    rfl
  · have hoperator : token.kind ≠ .operator := Word.not_operator_of_closes htoken
    have htokenSign : (if token.kind == .operator then UnaryOperator.ofSymbol? token.text else none) =
        none := if_neg (by simpa using hoperator)
    rw [htokenSign]
    rcases hother with hother | ⟨-, harrow⟩
    · have hoperator' : other.kind ≠ .operator := Word.not_operator_of_closes hother
      rw [if_neg (by simpa using hoperator')]
    · -- The arrow is no sign.
      have htext : other.text = "->" := Token.text_eq harrow
      rw [htext, show UnaryOperator.ofSymbol? "->" = none by decide, ite_self]

theorem bracket_eq (hother : Word.EndsAt level token.word other.word) :
    (other.kind == .leftBracket) = (token.kind == .leftBracket) := by
  rcases hother.endsOperand with hsame | ⟨hcloses, hends⟩
  · rw [Token.kind_eq hsame]
    rfl
  · have htoken : token.kind ≠ .leftBracket := (Word.endsOperand_of_closes hcloses).notBracket
    have hother : other.kind ≠ .leftBracket := hends.notBracket
    rw [beq_false_of_ne htoken, beq_false_of_ne hother]

end Word.EndsAt

section Making

variable {follows : Word → Word → Prop} {names : Names} {token other : Token} {cursor : Cursor}

theorem again_makeJoined (operator : Connective) (left right : Node) :
    Again follows (makeJoined names token operator left right)
      (makeJoined names other operator left right) cursor := by
  cases operator with
  | operator between => exact again_pure _
  | arrow =>
    change Again follows (makePipe names token left right) (makePipe names other left right) cursor
    unfold makePipe
    split
    · split
      · exact again_pure _
      · exact again_throw _
    · exact again_throw _

theorem again_makeCall (callee : Callee) (arguments : List Node) :
    Again follows (makeCall token callee arguments) (makeCall other callee arguments) cursor := by
  unfold makeCall
  split
  · exact again_throw _
  · cases callee <;> exact again_pure _

theorem again_makePairwise (arguments : List Node) :
    Again follows (makePairwise token arguments) (makePairwise other arguments) cursor := by
  unfold makePairwise
  split
  · split
    · exact again_pure _
    · exact again_throw _
  · exact again_throw _

theorem again_readName (hword : other.word = token.word) :
    Again follows (readName names token) (readName names other) cursor := by
  have htext : other.text = token.text := congrArg Word.text hword
  unfold readName
  rw [htext]
  split
  · exact again_pure _
  · split
    · exact again_throw _
    · exact again_pure _
    · exact again_pure _

end Making

section Steps

variable {budget larger : Nat} {names : Names} (hreads : ReadsAgain budget larger)

include hreads

theorem again_readOperation (level : Nat) (cursor : Cursor) :
    Again (Word.EndsAt level) (readOperation (budget + 1) names level)
      (readOperation (larger + 1) names level) cursor := by
  rw [readOperation, readOperation]
  refine ((hreads.operand names cursor).mono fun _ _ hword => ?_).bind
    (Word.replaces_endsAt level).refl fun left mid => hreads.operations names level left mid
  exact hword.mono fun _ => Nat.succ_pos _

theorem again_readOperations (level : Nat) (left : Node) (cursor : Cursor) :
    Again (Word.EndsAt level) (readOperations (budget + 1) names level left)
      (readOperations (larger + 1) names level left) cursor := by
  have hrefl := (Word.replaces_endsAt level).refl
  rw [readOperations, readOperations]
  refine again_current hrefl fun token others htokens other hother => ?_
  rcases hother with hsame | ⟨hcloses, hends⟩
  · have hconnective : Connective.ofToken? other = Connective.ofToken? token := by
      rw [Connective.ofToken?, Connective.ofToken?, Token.kind_eq hsame, Token.text_eq hsame]
      rfl
    rw [hconnective]
    cases hoperator : Connective.ofToken? token with
    | none => exact again_pure _
    | some operator =>
      dsimp only
      split_ifs
      · exact again_pure _
      · obtain ⟨tokens, fault?⟩ := cursor
        cases htokens
        refine again_advance (by rw [Connective.kind_of_ofToken? hoperator]; rfl) fun _ _ => ?_
        have hright := hreads.operation names (operator.level + 1) ⟨others, fault?⟩
        refine (hright.mono fun _ _ hword => hword.mono fun _ => Nat.succ_pos _).bind hrefl
          fun right mid => ?_
        exact (again_makeJoined operator left right).bind hrefl fun joined mid =>
          hreads.operations names level joined mid
  · -- Neither word goes on with the operation.
    rw [Connective.ofToken?_of_kind (Word.not_operator_of_closes hcloses)]
    rcases hends with hends | ⟨hlevel, harrow⟩
    · rw [Connective.ofToken?_of_kind (Word.not_operator_of_closes hends)]
      exact again_pure _
    · rw [Connective.ofToken?_arrow harrow]
      have hlower : Connective.arrow.level < level := hlevel
      simp only [hlower, if_true]
      exact again_pure _

theorem again_readOperand (cursor : Cursor) :
    Again (Word.EndsAt operandLevel) (readOperand (budget + 1) names)
      (readOperand (larger + 1) names) cursor := by
  have hrefl := (Word.replaces_endsAt operandLevel).refl
  rw [readOperand, readOperand]
  refine again_current hrefl fun token others htokens other hother => ?_
  rw [hother.ofSymbol?_eq]
  cases hsign : (if token.kind == .operator then UnaryOperator.ofSymbol? token.text else none) with
  | none =>
    exact (hreads.primary names cursor).bind hrefl fun primary mid =>
      hreads.indexes names primary mid
  | some operator =>
    obtain ⟨tokens, fault?⟩ := cursor
    cases htokens
    have hkind : token.kind = .operator := by
      refine Decidable.byContradiction fun hkind => ?_
      rw [if_neg (by simpa using hkind)] at hsign
      cases hsign
    refine again_advance (by rw [hkind]; rfl) fun _ _ => ?_
    exact (hreads.operation names _ _).bind hrefl fun _ _ => again_pure _

theorem again_readIndexes (target : Node) (cursor : Cursor) :
    Again (Word.EndsAt operandLevel) (readIndexes (budget + 1) names target)
      (readIndexes (larger + 1) names target) cursor := by
  have hrefl := (Word.replaces_endsAt operandLevel).refl
  rw [readIndexes, readIndexes]
  refine again_at? hrefl fun token others htokens other hother => ?_
  rw [hother.bracket_eq]
  split_ifs with hbracket
  · obtain ⟨tokens, fault?⟩ := cursor
    cases htokens
    rw [beq_iff_eq] at hbracket
    exact again_enclosed (moves_advance (by simp [hbracket])) (.inr hbracket) (.inr rfl)
      (Word.replaces_endsAt 0).refl (hreads.operation names 0 _)
      fun position mid => hreads.indexes names _ mid
  · exact again_pure _

/-- A lambda is read again when its body is, and a lone name in front of a word that does not
make an entry of a table of it. -/
theorem again_readIdentifier {follows : Word → Word → Prop} (hfollows : Word.Replaces follows)
    {token : Token} (hkind : token.kind = .identifier) {others : List Token}
    {fault? : Option ScanFault}
    (hbody : ∀ following rest, others = following :: rest → following.isOperator "=>" = true →
      ∀ inner cursor, Again follows (readOperation budget inner bodyLevel)
        (readOperation larger inner bodyLevel) cursor)
    (hname : ∀ following rest, others = following :: rest → ∀ word, follows following.word word →
      word.kind = .leftBracket → word = following.word) :
    Again follows (readIdentifier (budget + 1) names) (readIdentifier (larger + 1) names)
      ⟨token :: others, fault?⟩ := by
  rw [readIdentifier, readIdentifier]
  refine again_lookahead hfollows.refl (by rw [hkind]; rfl) ?_
  rintro following rest rfl ahead other hahead hother
  have htext : other.text = token.text := Token.text_eq hother
  -- What the next word makes of the name is the same for the word in its place.
  have hsame : ahead.word = following.word ∨
      following.word.closes = true ∧ ahead.word.EndsOperand := by
    rcases hfollows.ends hahead with hsame | ⟨hcloses, hparen, harrow⟩
    · exact .inl hsame
    · refine .inr ⟨hcloses, fun hbracket => ?_, hparen, harrow⟩
      have hword := hname following rest rfl _ hahead hbracket
      exact (Word.endsOperand_of_closes hcloses).notBracket (hword ▸ hbracket)
  rcases hsame with hsame | ⟨hcloses, hends⟩
  · have hahead : ahead.kind = following.kind := Token.kind_eq hsame
    have harrow : ahead.isOperator "=>" = following.isOperator "=>" := by
      rw [Token.isOperator, Token.isOperator, hahead, Token.text_eq hsame]
      rfl
    rw [harrow, hahead, htext]
    split_ifs with hlambda
    · refine again_advance ?_ fun _ _ => ?_
      · rw [Token.isOperator, Bool.and_eq_true, beq_iff_eq] at hlambda
        rw [hlambda.1]
        rfl
      · exact (hbody following rest rfl hlambda _ _).bind hfollows.refl fun _ _ => again_pure _
    · exact again_pure _
    · exact (hreads.call names token other _ hother).mono fun _ _ _ => trivial
    · exact again_readName hother
  · obtain ⟨harrow, hbracket, hparen⟩ := (Word.endsOperand_of_closes hcloses).no_more
    obtain ⟨harrow', hbracket', hparen'⟩ := hends.no_more
    rw [harrow, hbracket, hparen, harrow', hbracket', hparen']
    exact again_readName hother

theorem again_readPrimary {follows : Word → Word → Prop} (hfollows : Word.Replaces follows)
    {cursor : Cursor}
    (hidentifier : ∀ token others fault?, cursor = ⟨token :: others, fault?⟩ →
      token.kind = .identifier → Again follows (readIdentifier budget names)
        (readIdentifier larger names) cursor) :
    Again follows (readPrimary (budget + 1) names) (readPrimary (larger + 1) names) cursor := by
  rw [readPrimary, readPrimary]
  refine again_current hfollows.refl fun token others htokens other hother => ?_
  obtain ⟨tokens, fault?⟩ := cursor
  cases htokens
  rcases hfollows.ends hother with hsame | ⟨hcloses, -⟩
  · have hkind : other.kind = token.kind := Token.kind_eq hsame
    rw [hkind]
    cases htoken : token.kind with
    | int | float | string =>
      exact again_advance (by rw [htoken]; rfl) fun _ _ => again_pure _
    | bool flag =>
      refine again_lookahead hfollows.refl (by rw [htoken]; rfl) ?_
      rintro following rest rfl ahead _ hahead _
      have hparen : (ahead.kind == .leftParen) = (following.kind == .leftParen) := by
        rcases hfollows.ends hahead with hword | ⟨hends, hparen, -⟩
        · rw [Token.kind_eq hword]
          rfl
        · have hparen : ahead.kind ≠ .leftParen := hparen
          rw [(Word.endsOperand_of_closes hends).no_more.2.2, beq_false_of_ne hparen]
      rw [hparen]
      split_ifs
      · exact (hreads.call names token other _ hsame).mono fun _ _ _ => trivial
      · exact again_pure _
    | identifier => exact hidentifier token others fault? rfl htoken
    | leftParen =>
      exact again_enclosed (moves_advance (by simp [htoken])) (.inl htoken) (.inl rfl)
        (Word.replaces_endsAt 0).refl (hreads.operation names 0 _) fun _ _ => again_pure _
    | leftBracket =>
      exact again_enclosed (moves_advance (by simp [htoken])) (.inr htoken) (.inr rfl)
        Word.Same.refl (hreads.list names _ _) fun _ _ => again_pure _
    | finish | operator | rightParen | rightBracket | comma | atSign => exact again_throw _
  · -- What is replaced ends an expression, and none starts with it.
    obtain htoken | htoken | htoken | htoken := Word.closes_cases hcloses
    all_goals
      have htoken : token.kind = _ := htoken
      simp only [htoken]
      exact again_throw _

theorem again_readList (closing : TokenKind) (cursor : Cursor) :
    Again Word.Same (readList (budget + 1) names closing) (readList (larger + 1) names closing)
      cursor := by
  rw [readList, readList]
  refine again_at? Word.Same.refl fun token others htokens other hother => ?_
  rw [Token.kind_eq hother]
  change Again _ (if token.kind == closing then _ else _) (if token.kind == closing then _ else _) _
  split_ifs
  · exact again_pure _
  · refine ((hreads.operation names 0 cursor).mono fun _ _ => .inl).bind Word.Same.refl ?_
    exact fun first mid => (hreads.more names mid).bind Word.Same.refl fun _ _ => again_pure _

theorem again_readMore (cursor : Cursor) :
    Again Word.Same (readMore (budget + 1) names) (readMore (larger + 1) names) cursor := by
  rw [readMore, readMore]
  refine again_at? Word.Same.refl fun token others htokens other hother => ?_
  rw [Token.kind_eq hother]
  change Again _ (if token.kind == .comma then _ else _) (if token.kind == .comma then _ else _) _
  obtain ⟨tokens, fault?⟩ := cursor
  cases htokens
  split_ifs with hcomma
  · refine again_advance (by rw [eq_of_beq hcomma]; rfl) fun _ _ => ?_
    refine ((hreads.operation names 0 _).mono fun _ _ => .inl).bind Word.Same.refl ?_
    exact fun first mid => (hreads.more names mid).bind Word.Same.refl fun _ _ => again_pure _
  · exact again_pure _

theorem again_readArguments (cursor : Cursor) :
    Again Word.Any (readArguments (budget + 1) names) (readArguments (larger + 1) names)
      cursor := by
  rw [readArguments, readArguments]
  intro result after hrun
  obtain ⟨token, _, hopened, -⟩ := exists_of_bind hrun
  obtain ⟨hkind, others, htokens, -⟩ := exists_of_expect hopened (by simp)
  obtain ⟨tokens, fault?⟩ := cursor
  cases htokens
  exact again_enclosed (moves_expect hkind (by simp)) (.inl hkind) (.inl rfl) Word.Same.refl
    (hreads.list names _ _) (fun _ _ => again_pure _) result after hrun

theorem again_readCall {token other : Token} (hother : other.word = token.word)
    (cursor : Cursor) :
    Again Word.Any (readCall (budget + 1) names token) (readCall (larger + 1) names other)
      cursor := by
  have htext : other.text = token.text := Token.text_eq hother
  rw [readCall, readCall, htext]
  split_ifs
  · exact (hreads.arguments names cursor).bind (fun _ => trivial) fun arguments mid =>
      again_makePairwise arguments
  · cases Callee.named? token.text with
    | none => exact again_throw _
    | some callee =>
      exact (hreads.arguments names cursor).bind (fun _ => trivial) fun arguments mid =>
        again_makeCall callee arguments

end Steps

theorem readsAgain {budget larger : Nat} (hbudget : budget ≤ larger) :
    ReadsAgain budget larger := by
  induction budget generalizing larger with
  | zero =>
    exact {
      operation := fun _ _ _ => again_throw _
      operations := fun _ _ _ _ => again_throw _
      operand := fun _ _ => again_throw _
      indexes := fun _ _ _ => again_throw _
      primary := fun _ _ => again_throw _
      identifier := fun _ _ _ _ _ => again_throw _
      list := fun _ _ _ => again_throw _
      more := fun _ _ => again_throw _
      arguments := fun _ _ => again_throw _
      call := fun _ _ _ _ _ => again_throw _ }
  | succ budget ih =>
    obtain ⟨larger, rfl⟩ := Nat.exists_eq_add_of_le' (Nat.one_le_of_lt hbudget)
    have hreads : ReadsAgain budget larger := ih (Nat.le_of_succ_le_succ hbudget)
    have hname : ∀ {word other : Word}, Word.EndsAt operandLevel word other →
        other.kind = .leftBracket → other = word := by
      intro word other hother hbracket
      rcases hother.endsOperand with hsame | ⟨-, hends⟩
      · exact hsame
      · exact absurd hbracket hends.notBracket
    constructor
    case operation => exact fun names => again_readOperation hreads
    case operations => exact fun names => again_readOperations hreads
    case operand => exact fun names => again_readOperand hreads
    case indexes => exact fun names => again_readIndexes hreads
    case primary =>
      intro names cursor
      refine again_readPrimary hreads (Word.replaces_endsAt operandLevel) ?_
      rintro token others fault? rfl hkind
      exact hreads.identifier names token others fault? hkind
    case identifier =>
      exact fun names token others fault? hkind =>
        again_readIdentifier hreads (Word.replaces_endsAt operandLevel) hkind
          (fun _ _ _ _ inner cursor => (hreads.operation inner bodyLevel cursor).mono
            fun _ _ hword => hword.mono fun _ => Nat.succ_pos _)
          fun _ _ _ _ => hname
    case list => exact fun names => again_readList hreads
    case more => exact fun names => again_readMore hreads
    case arguments => exact fun names => again_readArguments hreads
    case call => exact fun names token other cursor hother => again_readCall hreads hother cursor

end Patchwork
