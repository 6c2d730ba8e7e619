import Patchwork.Proofs.Expression.Rereading
import Patchwork.Proofs.Token.Spacing

/-!
# Operands

An operand is an expression that can be read on its own and shows no operator outside its
brackets, with signs in front of it and indexes behind it.  It is read as the same expression
wherever it stands, and each sign applies to all of what is behind it and to nothing more.
-/

namespace Patchwork

open Reader

/-! ## The words of a text that is read -/

namespace Scan

/-- The words of a text before its end. -/
def words (text : String) : List Word :=
  ((ofText text).tokens.filter fun token => !token.isFinish).map Token.word

/-- A text is scanned to its end, as some words. -/
def HasWords (text : String) (words : List Word) : Prop :=
  ∃ tokens column, ofText text = ⟨tokens ++ [⟨.finish, "", column⟩], none⟩ ∧
    tokens.map Token.word = words

/-- Scanning that has got to the end has not stopped before. -/
theorem fault?_eq_none {budget : Nat} {previous : Option TokenKind} {column : Nat}
    {chars : List Char} {token : Token}
    (htoken : token ∈ (scanFrom budget previous column chars).tokens)
    (hfinish : token.isFinish = true) :
    (scanFrom budget previous column chars).fault? = none := by
  induction budget generalizing previous column chars with
  | zero => rfl
  | succ budget ih =>
    rw [scanFrom] at htoken ⊢
    dsimp only at htoken ⊢
    split at htoken
    · cases htoken
    · split_ifs at htoken ⊢ with hlast
      · rfl
      · rcases List.mem_cons.mp htoken with rfl | hlater
        · exact absurd hfinish hlast
        · exact ih hlater

/-- What is read as the end is the end. -/
theorem ofText_of_isFinish {text : String} {taken others : List Token} {token : Token}
    {fault? : Option ScanFault} (hscan : ofText text = ⟨taken ++ token :: others, fault?⟩)
    (hfinish : token.isFinish = true) :
    others = [] ∧ fault? = none ∧ (∃ column, token = ⟨.finish, "", column⟩) ∧
      ∀ word ∈ taken, word.kind ≠ .finish := by
  have hmem : token ∈ (ofText text).tokens := by simp [hscan]
  have hnone : fault? = none :=
    (congrArg Scan.fault? hscan).symm.trans (fault?_eq_none hmem hfinish)
  have hcomplete : complete text = .ok (taken ++ token :: others) := by
    rw [complete, hscan, hnone]
  obtain ⟨words, hwords, hkinds⟩ := (cut_of_complete hcomplete).isCut.finish
  rcases List.eq_nil_or_concat others with rfl | ⟨more, final, rfl⟩
  · obtain ⟨rfl, hlast⟩ := List.append_inj' hwords rfl
    obtain ⟨rfl, -⟩ := List.cons.inj hlast
    exact ⟨rfl, hnone, ⟨_, rfl⟩, fun word hword => (hkinds word hword).1⟩
  · -- All words but the last one are no end.
    rw [List.concat_eq_append, ← List.cons_append, ← List.append_assoc] at hwords
    obtain ⟨rfl, -⟩ := List.append_inj' hwords rfl
    exact absurd (by simpa [Token.isFinish] using hfinish) (hkinds token (by simp)).1

end Scan

namespace Node

variable {names : Names} {text : String} {node : Node}

/-- What happens when a text is read as an expression. -/
theorem exists_of_ofText (hread : Node.ofText names text = .ok node) :
    ∃ tokens column, Scan.ofText text = ⟨tokens ++ [⟨.finish, "", column⟩], none⟩ ∧
      (∀ token ∈ tokens, token.kind ≠ .finish) ∧
      readOperation (readingBudget (tokens.length + 1)) names 0
        ⟨tokens ++ [⟨.finish, "", column⟩], none⟩ =
          .ok (node, ⟨[⟨.finish, "", column⟩], none⟩) := by
  rw [Node.ofText, Reader.run] at hread
  generalize hscan : Scan.ofText text = scan at hread
  obtain ⟨tokens, fault?⟩ := scan
  obtain ⟨given, hrun, hgiven⟩ := exists_of_map_eq_ok hread
  obtain ⟨node, after⟩ := given
  cases hgiven
  obtain ⟨first, mid, hcurrent, hrun⟩ := exists_of_bind hrun
  obtain ⟨rfl, -⟩ := exists_of_current hcurrent
  obtain ⟨budget, mid, hbudget, hrun⟩ := exists_of_bind hrun
  cases hbudget
  obtain ⟨read, mid, hoperation, hrun⟩ := exists_of_bind hrun
  obtain ⟨_, last, hfinish, hrun⟩ := exists_of_bind hrun
  cases hrun
  obtain ⟨rfl, token, others, htokens, htoken⟩ := exists_of_expectFinish hfinish
  obtain ⟨taken, hcursor, -⟩ := (readsAgain (Nat.le_refl _)).operation names 0 _ _ _ hoperation
  obtain ⟨rfl, rfl⟩ := Cursor.mk.inj hcursor
  rw [htokens] at hscan
  obtain ⟨rfl, hnone, ⟨column, rfl⟩, hkinds⟩ := Scan.ofText_of_isFinish hscan htoken
  obtain ⟨tokens, fault?⟩ := after
  cases htokens
  cases hnone
  refine ⟨taken, column, rfl, hkinds, ?_⟩
  rw [List.length_append] at hoperation
  exact hoperation

end Node

/-- A text that is read on its own as an expression. -/
structure Phrase (names : Names) where
  text : String
  node : Node
  reads : Node.ofText names text = .ok node

namespace Phrase

variable {names : Names} (phrase : Phrase names)

def words : List Word :=
  Scan.words phrase.text

theorem exists_run :
    ∃ tokens column, Scan.ofText phrase.text = ⟨tokens ++ [⟨.finish, "", column⟩], none⟩ ∧
      tokens.map Token.word = phrase.words ∧
      readOperation (16 * phrase.words.length + 32) names 0
        ⟨tokens ++ [⟨.finish, "", column⟩], none⟩ =
          .ok (phrase.node, ⟨[⟨.finish, "", column⟩], none⟩) := by
  obtain ⟨tokens, column, hscan, hkinds, hrun⟩ := Node.exists_of_ofText phrase.reads
  have hwords : tokens.map Token.word = phrase.words := by
    have hfilter : tokens.filter (fun token => !token.isFinish) = tokens :=
      List.filter_eq_self.mpr fun token htoken => by simp [Token.isFinish, hkinds token htoken]
    rw [words, Scan.words, hscan, List.filter_append, hfilter]
    simp [Token.isFinish]
  refine ⟨tokens, column, hscan, hwords, ?_⟩
  have hbudget : readingBudget (tokens.length + 1) = 16 * phrase.words.length + 32 := by
    rw [← hwords, List.length_map, readingBudget]
    omega
  rw [← hbudget]
  exact hrun

theorem hasWords : Scan.HasWords phrase.text phrase.words := by
  obtain ⟨tokens, column, hscan, hwords, -⟩ := phrase.exists_run
  exact ⟨tokens, column, hscan, hwords⟩

theorem nested : Word.Nested phrase.words := by
  obtain ⟨tokens, column, -, hwords, hrun⟩ := phrase.exists_run
  obtain ⟨taken, hcursor, hnested, -⟩ :=
    (readsAgain (Nat.le_refl _)).operation names 0 _ _ _ hrun
  obtain rfl := List.append_cancel_right (congrArg Cursor.tokens hcursor)
  exact hwords ▸ hnested

/-- A phrase is read wherever an expression may end behind it. -/
theorem reads_closed {budget : Nat} (hbudget : 16 * phrase.words.length + 32 ≤ budget)
    {word : Word} (hword : word.closes = true) (tail : List Word) :
    Reads (readOperation budget names 0) phrase.words (word :: tail) phrase.node := by
  obtain ⟨tokens, column, -, hwords, hrun⟩ := phrase.exists_run
  obtain ⟨taken, hcursor, -, hreads⟩ := (readsAgain hbudget).operation names 0 _ _ _ hrun
  obtain rfl := List.append_cancel_right (congrArg Cursor.tokens hcursor)
  rw [← hwords]
  exact hreads _ _ rfl word tail (.inr ⟨rfl, .inl hword⟩)

/-- Wherever an operand may start, a phrase with a blank behind it is scanned as its words. -/
theorem spells {previous : Option TokenKind} (hprevious : Scan.operandMayStart previous = true)
    (rest : List Char) :
    ∃ last, Scan.Spells previous (phrase.text.toList ++ ' ' :: rest) phrase.words last
      (' ' :: rest) := by
  obtain ⟨tokens, column, hscan, hwords⟩ := phrase.hasWords
  have hcomplete : Scan.complete phrase.text = .ok (tokens ++ [⟨.finish, "", column⟩]) := by
    rw [Scan.complete, hscan]
  obtain ⟨words, last, hsame, hspells⟩ :=
    (Scan.cut_of_complete hcomplete).spells_in_place (hprevious.trans rfl) rest
  rw [List.map_append, hwords] at hsame
  obtain rfl := (List.append_inj' hsame rfl).1
  exact ⟨last, hspells⟩

end Phrase

/-! ## What stands in front of indexes -/

/-- Indexes are read again as the first of more indexes. -/
theorem indexes_again {names : Names} {budget : Nat} {target node : Node} {cursor after : Cursor}
    (hrun : readIndexes budget names target cursor = .ok (node, after)) :
    ∃ taken, cursor = ⟨taken ++ after.tokens, after.fault?⟩ ∧
      Word.Nested (taken.map Token.word) ∧
      ∀ larger, budget ≤ larger → ∀ more rest result, more ++ rest ≠ [] →
        (∀ left, larger ≤ left + taken.length →
          Reads (readIndexes left names node) more rest result) →
        Reads (readIndexes larger names target) (taken.map Token.word ++ more) rest result := by
  induction budget generalizing target cursor with
  | zero => cases hrun
  | succ budget ih =>
    rw [readIndexes] at hrun
    obtain ⟨here, mid, hat, hrun⟩ := exists_of_bind hrun
    obtain ⟨rfl, token, others, htokens, rfl⟩ := exists_of_at? hat
    obtain ⟨tokens, fault?⟩ := mid
    cases htokens
    split_ifs at hrun with hbracket
    · rw [beq_iff_eq] at hbracket
      obtain ⟨_, mid, hopened, hrun⟩ := exists_of_bind hrun
      obtain ⟨-, rfl⟩ := exists_of_advance (by simp [hbracket]) hopened
      obtain ⟨position, mid, hposition, hrun⟩ := exists_of_bind hrun
      obtain ⟨closer, behind, hclosed, hrun⟩ := exists_of_bind hrun
      obtain ⟨hcloser, rest, hmid, rfl⟩ := exists_of_expect hclosed (by simp)
      obtain ⟨inner, hinner, hnestedInner, -⟩ :=
        (readsAgain (Nat.le_refl _)).operation names 0 _ _ _ hposition
      obtain ⟨later, hlater, hnestedLater, hreads⟩ := ih hrun
      obtain ⟨rfl, rfl⟩ := Cursor.mk.inj hinner
      obtain ⟨rfl, hfault⟩ := Cursor.mk.inj hlater
      refine ⟨token :: (inner ++ closer :: later), ?_, ?_, ?_⟩
      · rw [hmid, hfault]
        simp
      · rw [List.map_cons, List.map_append, List.map_cons]
        exact .enclosed (.inr hbracket) (.inr hcloser) hnestedInner hnestedLater
      intro larger hlarger more back result hmore hnext
      obtain ⟨larger, rfl⟩ := Nat.exists_eq_add_of_le' (Nat.one_le_of_lt hlarger)
      have hbudget : budget ≤ larger := Nat.le_of_succ_le_succ hlarger
      obtain ⟨same, hsame, -, hreadsInner⟩ := (readsAgain hbudget).operation names 0 _ _ _ hposition
      obtain rfl := eq_of_taken rfl hsame
      have hwords : (token :: (inner ++ closer :: later)).map Token.word ++ more = token.word ::
          (inner.map Token.word ++ closer.word :: (later.map Token.word ++ more)) := by
        simp
      rw [hwords, readIndexes]
      refine .at? rfl ?_
      rw [if_pos (by simp [Token.word, hbracket])]
      refine .advance (by simp) (by simp [Token.word, hbracket]) fun _ _ => ?_
      refine .bind (hreadsInner closer _ hmid closer.word _ (.inl rfl)) ?_
      have hbehind : (later.map Token.word ++ more) ++ back ≠ [] := by
        rw [List.append_assoc]
        exact List.append_ne_nil_of_right_ne_nil _ hmore
      refine .expect hbehind hcloser (by simp) fun _ _ => ?_
      refine hreads larger hbudget more back result hmore fun left hleft => hnext left ?_
      simp only [List.length_cons, List.length_append]
      omega
    · cases hrun
      exact ⟨[], rfl, .nil, fun larger _ more rest result _ hnext => hnext larger (by simp)⟩

theorem exists_of_readOperand {names : Names} {budget : Nat} {token : Token} {others : List Token}
    {fault? : Option ScanFault} {node : Node} {after : Cursor} (hkind : token.kind ≠ .operator)
    (hrun : readOperand (budget + 1) names ⟨token :: others, fault?⟩ = .ok (node, after)) :
    ∃ target mid, readPrimary budget names ⟨token :: others, fault?⟩ = .ok (target, mid) ∧
      readIndexes budget names target mid = .ok (node, after) := by
  rw [readOperand] at hrun
  obtain ⟨first, mid, hcurrent, hrun⟩ := exists_of_bind hrun
  cases hcurrent
  rw [if_neg (by simpa using hkind)] at hrun
  exact exists_of_bind hrun

theorem eq_of_readOperations {names : Names} {budget level : Nat} {token : Token}
    {others : List Token} {fault? : Option ScanFault} {left node : Node} {after : Cursor}
    (hkind : token.kind ≠ .operator)
    (hrun : readOperations (budget + 1) names level left ⟨token :: others, fault?⟩ =
      .ok (node, after)) : node = left ∧ after = ⟨token :: others, fault?⟩ := by
  rw [readOperations] at hrun
  obtain ⟨first, mid, hcurrent, hrun⟩ := exists_of_bind hrun
  cases hcurrent
  rw [Connective.ofToken?_of_kind hkind] at hrun
  cases hrun
  exact ⟨rfl, rfl⟩

theorem eq_of_readIndexes {names : Names} {budget : Nat} {token : Token} {others : List Token}
    {fault? : Option ScanFault} {target node : Node} {after : Cursor}
    (hkind : token.kind ≠ .leftBracket)
    (hrun : readIndexes (budget + 1) names target ⟨token :: others, fault?⟩ = .ok (node, after)) :
    after = ⟨token :: others, fault?⟩ := by
  rw [readIndexes] at hrun
  obtain ⟨here, mid, hat, hrun⟩ := exists_of_bind hrun
  obtain ⟨rfl, first, rest, htokens, rfl⟩ := exists_of_at? hat
  cases htokens
  rw [if_neg (by simpa using hkind)] at hrun
  cases hrun
  rfl

theorem eq_of_readName {names : Names} {token : Token} {cursor after : Cursor} {node : Node}
    (hrun : readName names token cursor = .ok (node, after)) : after = cursor := by
  unfold readName at hrun
  split at hrun
  · cases hrun
    rfl
  · cases hlookup : names.environment.lookup? token.text with
    | none =>
      rw [hlookup] at hrun
      cases hrun
    | some value =>
      rw [hlookup] at hrun
      cases value <;> cases hrun <;> rfl

/-- Only the name is taken when a word follows that makes no more of it. -/
theorem eq_of_readPrimary_name {names : Names} {budget : Nat} {token following : Token}
    {others : List Token} {fault? : Option ScanFault} {node : Node} {after : Cursor}
    (hkind : token.kind = .identifier) (hfollowing : following.word.EndsOperand)
    (hrun : readPrimary (budget + 2) names ⟨token :: following :: others, fault?⟩ =
      .ok (node, after)) : after = ⟨following :: others, fault?⟩ := by
  rw [readPrimary] at hrun
  obtain ⟨first, mid, hcurrent, hrun⟩ := exists_of_bind hrun
  cases hcurrent
  simp only [hkind] at hrun
  rw [readIdentifier] at hrun
  obtain ⟨ahead, mid, hahead, hrun⟩ := exists_of_bind hrun
  obtain ⟨rfl, rest, hrest⟩ := exists_of_next (by simp [hkind]) hahead
  cases hrest
  obtain ⟨moved, mid, hmoved, hrun⟩ := exists_of_bind hrun
  obtain ⟨rfl, rfl⟩ := exists_of_advance (by simp [hkind]) hmoved
  obtain ⟨harrow, hbracket, hparen⟩ := hfollowing.no_more
  rw [harrow, hbracket, hparen] at hrun
  exact eq_of_readName hrun

/-- Whether every operator stands inside brackets, where some brackets are open. -/
def Word.operatorsInside (depth : Nat) : List Word → Bool
  | [] => true
  | word :: others =>
    (word.kind != .operator || decide (0 < depth)) && operatorsInside (word.nesting depth) others

theorem Word.operatorsInside_append (depth : Nat) (words more : List Word) :
    operatorsInside depth (words ++ more) =
      (operatorsInside depth words && operatorsInside (words.foldl nesting depth) more) := by
  induction words generalizing depth with
  | nil => rfl
  | cons word words ih =>
    rw [List.cons_append, operatorsInside, operatorsInside, ih, List.foldl_cons, Bool.and_assoc]

/-- As long as one more open bracket makes a difference, some bracket is open. -/
theorem Word.operatorsInside_of_ne {depth : Nat} {words : List Word}
    (hopen : words.foldl nesting (depth + 1) ≠ words.foldl nesting depth) :
    operatorsInside (depth + 1) words = true := by
  induction words generalizing depth with
  | nil => rfl
  | cons word words ih =>
    rw [operatorsInside, Bool.and_eq_true, Bool.or_eq_true, decide_eq_true_eq]
    refine ⟨.inr (Nat.succ_pos depth), ?_⟩
    rw [List.foldl_cons, List.foldl_cons] at hopen
    have hafter : word.nesting (depth + 1) = word.nesting depth + 1 ∨
        word.nesting (depth + 1) = word.nesting depth := by
      unfold nesting
      split <;> omega
    rcases hafter with hafter | hafter
    · rw [hafter] at hopen ⊢
      exact ih hopen
    · exact absurd (by rw [hafter]) hopen

/-- Brackets hide the operators between them. -/
theorem Word.operatorsInside_enclosed {opener closer : Word} {words more : List Word}
    (hopens : opener.kind.Opens) (hcloses : closer.kind.Closes) (hwords : Nested words) :
    operatorsInside 0 (opener :: (words ++ closer :: more)) = operatorsInside 0 more := by
  have hinside : operatorsInside 1 words = true :=
    operatorsInside_of_ne (by rw [hwords, hwords]; simp)
  have hopen : opener.nesting 0 = 1 := by
    rcases hopens with hkind | hkind <;> rw [nesting, hkind]
  have hclose : closer.nesting 1 = 0 := by
    rcases hcloses with hkind | hkind <;> rw [nesting, hkind]
  have hopener : opener.kind ≠ .operator := by
    rcases hopens with hkind | hkind <;> rw [hkind] <;> simp
  rw [operatorsInside, hopen, operatorsInside_append, hinside, hwords, operatorsInside, hclose]
  simp [hopener]

/-- The words of a list of phrases, with a comma between each two. -/
def Phrase.listWords {names : Names} : List (Phrase names) → List Word
  | [] => []
  | [phrase] => phrase.words
  | phrase :: phrases => phrase.words ++ .comma :: listWords phrases

theorem Phrase.nested_listWords {names : Names} (phrases : List (Phrase names)) :
    Word.Nested (listWords phrases) := by
  fun_induction listWords phrases with
  | case1 => exact .nil
  | case2 phrase => exact phrase.nested
  | case3 phrase phrases _ ih => exact phrase.nested.append (.cons rfl ih)

/-- An array, a call and an expression in parentheses show no operator: some words that are no
operators, such as the name of what is called, and a list of phrases in brackets. -/
theorem Phrase.operatorsInside_of_brackets {names : Names} (phrases : List (Phrase names))
    {front : List Word} (hfront : ∀ word ∈ front, word.kind.isPlain = true ∧ word.kind ≠ .operator)
    {opener closer : Word} (hopens : opener.kind.Opens) (hcloses : closer.kind.Closes) :
    Word.operatorsInside 0 (front ++ opener :: (listWords phrases ++ [closer])) = true := by
  induction front with
  | nil => exact Word.operatorsInside_enclosed hopens hcloses (nested_listWords phrases)
  | cons word front ih =>
    obtain ⟨⟨hplain, hoperator⟩, hothers⟩ := List.forall_mem_cons.mp hfront
    have hstays : word.nesting 0 = 0 := (Word.Nested.cons hplain .nil) 0
    rw [List.cons_append, Word.operatorsInside, hstays, ih hothers]
    simpa using hoperator

/-- A phrase without an operator outside its brackets: a literal, a name, a call, an array or
an expression in parentheses, perhaps with indexes behind it. -/
structure Primary (names : Names) extends Phrase names where
  inside : Word.operatorsInside 0 toPhrase.words = true

namespace Primary

variable {names : Names} (primary : Primary names)

variable {primary} in
theorem not_operator {front back : List Word} {word : Word}
    (hwords : primary.words = front ++ word :: back) (hfront : Word.Nested front) :
    word.kind ≠ .operator := by
  have hinside := primary.inside
  rw [hwords, Word.operatorsInside_append, hfront, Bool.and_eq_true, Word.operatorsInside,
    Bool.and_eq_true] at hinside
  simpa using hinside.2.1

/-- A primary is read as what stands in front of indexes and then the indexes, and nothing is
left for operators. -/
theorem exists_runs :
    ∃ tokens column target mid, tokens.map Token.word = primary.words ∧
      readPrimary (16 * primary.words.length + 30) names
        ⟨tokens ++ [⟨.finish, "", column⟩], none⟩ = .ok (target, mid) ∧
      readIndexes (16 * primary.words.length + 30) names target mid =
        .ok (primary.node, ⟨[⟨.finish, "", column⟩], none⟩) := by
  obtain ⟨tokens, column, -, hwords, hrun⟩ := primary.exists_run
  refine ⟨tokens, column, ?_⟩
  rw [readOperation] at hrun
  obtain ⟨left, between, hoperand, hoperations⟩ := exists_of_bind hrun
  obtain ⟨first, others, htokens⟩ : ∃ first others,
      tokens ++ [(⟨.finish, "", column⟩ : Token)] = first :: others := by
    cases tokens <;> exact ⟨_, _, rfl⟩
  have hkind : first.kind ≠ .operator := by
    cases tokens with
    | nil =>
      cases htokens
      simp
    | cons token tokens =>
      cases htokens
      exact not_operator hwords.symm .nil
  rw [htokens] at hoperand ⊢
  obtain ⟨target, mid, htarget, hindexes⟩ := exists_of_readOperand hkind hoperand
  obtain ⟨front, hfront, hnested, -⟩ := (readsAgain (Nat.le_refl _)).primary names _ _ _ htarget
  obtain ⟨middle, hmiddle, hnestedMiddle, -⟩ := indexes_again hindexes
  obtain ⟨back, hback, -, -⟩ :=
    (readsAgain (Nat.le_refl _)).operations names 0 left _ _ _ hoperations
  have hsplit : tokens = front ++ middle ++ back := by
    have hall := htokens.trans (congrArg Cursor.tokens hfront)
    rw [hmiddle, hback, ← List.append_assoc, ← List.append_assoc] at hall
    exact List.append_cancel_right hall
  obtain ⟨next, rest, hnext, hstops⟩ : ∃ next rest,
      back ++ [(⟨.finish, "", column⟩ : Token)] = next :: rest ∧ next.kind ≠ .operator := by
    cases back with
    | nil => exact ⟨_, _, rfl, by simp⟩
    | cons next back =>
      have hplace : primary.words =
          (front.map Token.word ++ middle.map Token.word) ++ next.word :: back.map Token.word := by
        rw [← hwords, hsplit, List.map_append, List.map_append, List.map_cons]
      exact ⟨next, _, rfl, not_operator hplace (hnested.append hnestedMiddle)⟩
  rw [hback, hnext] at hoperations
  obtain ⟨rfl, hafter⟩ := eq_of_readOperations hstops hoperations
  refine ⟨target, mid, hwords, htarget, ?_⟩
  rw [hafter, ← hnext, ← hback]
  exact hindexes

theorem exists_first_word :
    ∃ first others, primary.words = first :: others ∧ first.kind ≠ .operator := by
  obtain ⟨tokens, column, target, mid, hwords, htarget, -⟩ := primary.exists_runs
  cases tokens with
  | nil => cases htarget
  | cons token tokens => exact ⟨token.word, _, hwords.symm, not_operator hwords.symm .nil⟩

/-- A word that makes no more of a primary in front of it than it is on its own: behind a name
alone, a bracket would make an entry of a table of it. -/
structure MayPrecede (word : Word) : Prop where
  notParen : word.kind ≠ .leftParen
  notArrow : ¬ (word.kind = .operator ∧ word.text = "=>")
  notEntry : word.kind = .leftBracket → primary.words.map Word.kind ≠ [.identifier]

def Follows (word other : Word) : Prop :=
  other = word ∨ word.closes = true ∧ primary.MayPrecede other

theorem replaces_follows : Word.Replaces primary.Follows where
  refl _ := .inl rfl
  ends hword := hword.imp_right fun ⟨hcloses, hother⟩ => ⟨hcloses, hother.notParen, hother.notArrow⟩

/-- What stands in front of the indexes is read again in front of any word that may follow. -/
theorem again_target {tokens : List Token} {finish : Token} {larger : Nat} {target : Node}
    {mid : Cursor} (hwords : tokens.map Token.word = primary.words)
    (hlarger : 16 * primary.words.length + 30 ≤ larger)
    (hfinish : finish.kind = .finish)
    (htarget : readPrimary (16 * primary.words.length + 30) names ⟨tokens ++ [finish], none⟩ =
      .ok (target, mid))
    (hindexes : readIndexes (16 * primary.words.length + 30) names target mid =
      .ok (primary.node, ⟨[finish], none⟩)) :
    Again primary.Follows (readPrimary (16 * primary.words.length + 30) names)
      (readPrimary larger names) ⟨tokens ++ [finish], none⟩ := by
  obtain ⟨larger, rfl⟩ := Nat.exists_eq_add_of_le' (by omega : 2 ≤ larger)
  refine again_readPrimary (readsAgain (by omega)) primary.replaces_follows ?_
  rintro token others fault? hcursor hkind
  obtain ⟨htokens, rfl⟩ := Cursor.mk.inj hcursor
  rw [htokens]
  refine again_readIdentifier (readsAgain (by omega)) primary.replaces_follows hkind ?_ ?_
  · rintro following rest rfl hlambda
    -- The arrow of a lambda would be an operator outside the brackets.
    have hoperator : following.kind = .operator := by
      rw [Token.isOperator, Bool.and_eq_true, beq_iff_eq] at hlambda
      exact hlambda.1
    have hplain : Word.Nested [token.word] := .cons (by rw [Token.word, hkind]; rfl) .nil
    rcases tokens with _ | ⟨first, _ | ⟨second, behind⟩⟩ <;> cases htokens
    · exact absurd hfinish (by simp [hoperator])
    · exact absurd hoperator (not_operator hwords.symm hplain)
  · rintro following rest rfl word (rfl | ⟨hcloses, hword⟩) hbracket
    · rfl
    · -- The name is all that is read.
      have hends := Word.endsOperand_of_closes hcloses
      obtain rfl := eq_of_readPrimary_name hkind hends (htokens ▸ htarget)
      have hrest := eq_of_readIndexes hends.notBracket hindexes
      cases hrest
      have hlone : tokens = [token] :=
        List.append_cancel_right (htokens : tokens ++ [finish] = [token] ++ [finish])
      refine absurd ?_ (hword.notEntry hbracket)
      rw [← hwords, hlone, List.map_cons, List.map_nil, List.map_cons, List.map_nil]
      exact congrArg (fun kind => [kind]) hkind

/-- A primary is read again as an operand, and what comes behind it may go on with indexes. -/
theorem reads_operand {budget : Nat} (hbudget : 16 * primary.words.length + 31 ≤ budget)
    {word : Word} {more rest tail : List Word} (hmore : more ++ rest = word :: tail)
    (hword : primary.MayPrecede word) {result : Node}
    (hindexes : ∀ left, budget ≤ left + primary.words.length + 1 →
      Reads (readIndexes left names primary.node) more rest result) :
    Reads (readOperand budget names) (primary.words ++ more) rest result := by
  obtain ⟨tokens, column, target, mid, hwords, htarget, hrun⟩ := primary.exists_runs
  obtain ⟨budget, rfl⟩ := Nat.exists_eq_add_of_le' (by omega : 1 ≤ budget)
  have hlarger : 16 * primary.words.length + 30 ≤ budget := by omega
  obtain ⟨front, hfront, -, hreads⟩ :=
    primary.again_target hwords hlarger rfl htarget hrun _ _ htarget
  obtain ⟨middle, hmiddle, -, hagain⟩ := indexes_again hrun
  have hsplit : tokens = front ++ middle := by
    have hall := congrArg Cursor.tokens hfront
    rw [hmiddle, ← List.append_assoc] at hall
    exact List.append_cancel_right hall
  have hplaces : primary.words ++ more = front.map Token.word ++ (middle.map Token.word ++ more) := by
    rw [← hwords, hsplit, List.map_append, List.append_assoc]
  have htargetAgain : Reads (readPrimary budget names) (front.map Token.word)
      ((middle.map Token.word ++ more) ++ rest) target := by
    rw [List.append_assoc, hmore]
    cases middle with
    | nil => exact hreads _ _ (congrArg Cursor.tokens hmiddle) word tail (.inr ⟨rfl, hword⟩)
    | cons next middle =>
      exact hreads _ _ (congrArg Cursor.tokens hmiddle) next.word _ (.inl rfl)
  have hindexesAgain : Reads (readIndexes budget names target) (middle.map Token.word ++ more) rest
      result := by
    refine hagain budget hlarger more rest result (by simp [hmore]) fun left hleft => hindexes left ?_
    have hlength : primary.words.length = front.length + middle.length := by
      rw [← hwords, List.length_map, hsplit, List.length_append]
    omega
  obtain ⟨first, others, hfirst, hkind⟩ := primary.exists_first_word
  rw [readOperand]
  refine .current (by rw [hfirst]; rfl) fun token htoken => ?_
  rw [if_neg (by simp [Token.kind_eq htoken, hkind]), hplaces]
  exact .bind htargetAgain hindexesAgain

end Primary

/-! ## Signs and indexes -/

/-- A primary with signs in front of it and indexes behind it.  A name that stands alone has
none behind it. -/
structure Operand (names : Names) where
  signs : List UnaryOperator
  primary : Primary names
  positions : List (Phrase names)
  unnamed : positions ≠ [] → primary.words.map Word.kind ≠ [.identifier]

/-- A primary alone. -/
def Primary.alone {names : Names} (primary : Primary names) : Operand names :=
  ⟨[], primary, [], nofun⟩

namespace Operand

variable {names : Names}

/-- The entry of an entry of what stands in front. -/
def indexed (target : Node) (positions : List (Phrase names)) : Node :=
  positions.foldl (fun target position => .index target position.node) target

/-- The signs apply to the primary with its indexes, the one nearest to it first. -/
def node (operand : Operand names) : Node :=
  operand.signs.foldr .unary (indexed operand.primary.node operand.positions)

def indexWords (positions : List (Phrase names)) : List Word :=
  positions.flatMap fun position => .leftBracket :: (position.words ++ [.rightBracket])

def words (operand : Operand names) : List Word :=
  operand.signs.map (fun sign => .operator sign.symbol) ++
    (operand.primary.words ++ indexWords operand.positions)

theorem length_words_pos (operand : Operand names) : 0 < operand.words.length := by
  obtain ⟨first, others, hfirst, -⟩ := operand.primary.exists_first_word
  simp only [words, hfirst, List.length_append, List.length_cons]
  omega

theorem reads_indexes (positions : List (Phrase names)) {budget : Nat}
    (hbudget : 16 * (indexWords positions).length + 1 ≤ budget) {word : Word}
    (hword : word.kind ≠ .leftBracket) (target : Node) (tail : List Word) :
    Reads (readIndexes budget names target) (indexWords positions) (word :: tail)
      (indexed target positions) := by
  induction positions generalizing budget target with
  | nil => exact readIndexes_stops (by omega) hword
  | cons position positions ih =>
    have hwords : indexWords (position :: positions) =
        .leftBracket :: (position.words ++ .rightBracket :: indexWords positions) := by
      simp [indexWords]
    rw [hwords] at hbudget ⊢
    simp only [List.length_cons, List.length_append] at hbudget
    obtain ⟨budget, rfl⟩ := Nat.exists_eq_add_of_le' (by omega : 1 ≤ budget)
    rw [readIndexes]
    refine .at? rfl ?_
    rw [if_pos (by rfl)]
    refine .advance (by simp) (by simp [Word.leftBracket]) fun _ _ => ?_
    refine .bind (position.reads_closed (by omega) rfl _) ?_
    exact .expect (by simp) rfl (by simp) fun _ _ => ih (by omega) _

/-- An operand is read wherever an operand may end behind it. -/
theorem reads (operand : Operand names) {budget : Nat}
    (hbudget : 16 * operand.words.length + 31 ≤ budget) {word : Word}
    (hword : word.EndsOperand) (tail : List Word) :
    Reads (readOperand budget names) operand.words (word :: tail) operand.node := by
  obtain ⟨signs, primary, positions, hunnamed⟩ := operand
  simp only [words, node] at hbudget ⊢
  induction signs generalizing budget with
  | nil =>
    simp only [List.map_nil, List.nil_append, List.length_append] at hbudget ⊢
    have hindexes : ∀ left, budget ≤ left + primary.words.length + 1 →
        Reads (readIndexes left names primary.node) (indexWords positions) (word :: tail)
          (indexed primary.node positions) := fun left hleft =>
      reads_indexes positions (by omega) hword.notBracket _ tail
    cases positions with
    | nil =>
      exact primary.reads_operand (by omega) rfl
        ⟨hword.notParen, hword.notArrow, fun hbracket => absurd hbracket hword.notBracket⟩ hindexes
    | cons position positions =>
      have hbracket : primary.MayPrecede .leftBracket :=
        ⟨by simp [Word.leftBracket], fun harrow => absurd harrow.1 (by simp [Word.leftBracket]), fun _ => hunnamed (by simp)⟩
      exact primary.reads_operand (by omega) rfl hbracket hindexes
  | cons sign signs ih =>
    simp only [List.map_cons, List.cons_append, List.length_cons] at hbudget ⊢
    obtain ⟨budget, rfl⟩ := Nat.exists_eq_add_of_le' (by omega : 2 ≤ budget)
    rw [readOperand]
    refine .current rfl fun token htoken => ?_
    have hkind : token.kind = .operator := Token.kind_eq htoken
    have htext : token.text = sign.symbol := Token.text_eq htoken
    rw [if_pos (by simp [hkind]), htext, UnaryOperator.ofSymbol?_symbol]
    refine .advance (by simp) (by simp [Word.operator]) fun _ _ => ?_
    rw [readOperation]
    -- No operator binds as tightly as a sign, so the operand is all that is taken.
    exact .andThen (.andThen (ih (by omega)) (readOperations_operandLevel (by omega))) (.pure _ _)

/-! ### With blanks -/

def indexText (positions : List (Phrase names)) : String :=
  positions.foldr (fun position behind => "[ " ++ position.text ++ " ] " ++ behind) ""

/-- The operand with a blank after each sign and each phrase. -/
def text (operand : Operand names) : String :=
  operand.signs.foldr (fun sign behind => sign.symbol ++ " " ++ behind)
    (operand.primary.text ++ " " ++ indexText operand.positions)

theorem spells_indexes (positions : List (Phrase names)) (previous : Option TokenKind)
    (rest : List Char) :
    ∃ last, Scan.Spells previous ((indexText positions).toList ++ rest) (indexWords positions)
      last rest := by
  induction positions generalizing previous with
  | nil => exact ⟨previous, .done previous rest⟩
  | cons position positions ih =>
    obtain ⟨last, hothers⟩ := ih (some .rightBracket)
    have hbehind : Scan.Spells (some .rightBracket) (' ' :: ((indexText positions).toList ++ rest))
        (indexWords positions) last rest := .blank (by decide) hothers
    have hstart : Scan.operandMayStart (some .leftBracket) = true := rfl
    obtain ⟨middle, hposition⟩ :=
      position.spells hstart (']' :: ' ' :: ((indexText positions).toList ++ rest))
    have hclosed : Scan.Spells middle (' ' :: ']' :: ' ' :: ((indexText positions).toList ++ rest))
        (.rightBracket :: indexWords positions) last rest :=
      .blank (by decide) (.punctuation rfl hbehind)
    have hopened : Scan.Spells previous ('[' :: ' ' :: (position.text.toList ++ ' ' :: ']' :: ' ' ::
        ((indexText positions).toList ++ rest)))
        (.leftBracket :: (position.words ++ .rightBracket :: indexWords positions)) last rest :=
      .punctuation rfl (.blank (by decide) (hposition.trans hclosed))
    refine ⟨last, ?_⟩
    simpa [indexText, indexWords, String.toList_append] using hopened

/-- Wherever an operand may start, the text of one is scanned as its words. -/
theorem spells (operand : Operand names) {previous : Option TokenKind}
    (hprevious : Scan.operandMayStart previous = true) (rest : List Char) :
    ∃ last, Scan.Spells previous (operand.text.toList ++ rest) operand.words last rest := by
  obtain ⟨signs, primary, positions, hunnamed⟩ := operand
  simp only [words, text]
  induction signs generalizing previous with
  | nil =>
    obtain ⟨middle, hprimary⟩ := primary.spells hprevious ((indexText positions).toList ++ rest)
    obtain ⟨last, hindexes⟩ := spells_indexes positions middle rest
    have hboth := hprimary.trans (.blank (by decide) hindexes)
    refine ⟨last, ?_⟩
    simpa [String.toList_append] using hboth
  | cons sign signs ih =>
    have hstart : Scan.operandMayStart (some .operator) = true := rfl
    obtain ⟨last, hoperand⟩ := ih hstart
    have hsigned : Scan.Spells previous _ _ _ _ := .unaryOperator sign hoperand
    refine ⟨last, ?_⟩
    simpa [String.toList_append] using hsigned

end Operand

end Patchwork
