import Patchwork.Patcher
import Patchwork.Proofs.Expression.Operands

/-!
# Queries are no expressions

The outline of a group query has two pairs of parentheses next to each other.  What stands
in the first one is scanned as words that open and close no bracket, so an expression that
starts there ends with that pair, and no expression goes on with another pair.  No text is
both a query and an expression, then, and it does not matter which of the two is looked for
first.
-/

namespace Patchwork

open Reader

/-! ## The words of the mods -/

namespace Scan

variable {previous : Option TokenKind} {column : Nat} {kind : TokenKind} {chars rest : List Char}
  {tokens : List Token}

/-- What starts with a character of the mods is no bracket, and the parenthesis that closes them
is not in it. -/
theorem Lexeme.plain_of_isModsChar (hlexeme : Lexeme previous kind chars rest)
    (hfirst : ∀ char ∈ chars.head?, QueryText.isModsChar char = true) :
    kind.isPlain = true ∧ ')' ∉ chars := by
  have hnumber : ∀ {sign digits : List Char} {hasPoint : Bool}, SignAfter previous sign →
      NumberBody digits hasPoint rest → ')' ∉ sign ++ digits := by
    intro sign digits hasPoint hsign hbody
    have hdigits : ')' ∉ digits := hbody.not_mem (by decide) (by decide)
    rcases hsign with rfl | ⟨rfl, -⟩ <;> simpa using hdigits
  cases hlexeme with
  | atSign => exact absurd (hfirst '@' rfl) (by decide)
  | integer hsign hbody => exact ⟨rfl, hnumber hsign hbody⟩
  | decimal hsign hbody => exact ⟨rfl, hnumber hsign hbody⟩
  | @word first others _ hletter hothers =>
    have hparen : Text.isWord ')' = false := by decide
    refine ⟨?_, fun hmem => ?_⟩
    · unfold wordKind
      split_ifs <;> rfl
    · have hword : Text.isWord ')' = true := by
        rcases List.mem_cons.mp hmem with rfl | hmem
        · exact Text.isWord_of_isAlphanumeric (Text.isAlphanumeric_of_isLetter hletter)
        · exact hothers _ hmem
      rw [hparen] at hword
      cases hword
  | string => exact absurd (hfirst '"' rfl) (by decide)
  | @pairOperator char second _ hpair =>
    have hall : (pairOperators.all fun operator => !operator.contains ')') = true := by decide
    exact ⟨rfl, by simpa using List.all_eq_true.mp hall _ hpair⟩
  | @singleOperator char _ hsingle =>
    refine ⟨rfl, fun hmem => ?_⟩
    obtain rfl := List.mem_singleton.mp hmem
    exact absurd hsingle (by decide)
  | @punctuation char _ _ hkind =>
    have hmods := hfirst char rfl
    unfold punctuation? at hkind
    split at hkind
    · exact absurd hmods (by decide)
    · exact absurd hmods (by decide)
    · exact absurd hmods (by decide)
    · exact absurd hmods (by decide)
    · cases hkind
      exact ⟨rfl, by decide⟩
    · cases hkind

/-- The mods of a query are cut into words without brackets, in front of the parenthesis that
closes them and the one that opens the second pair. -/
theorem Cut.exists_closer {front behind : List Char}
    (hfront : ∀ char ∈ front, QueryText.isModsChar char = true)
    (hcut : Cut previous column (front ++ ')' :: '(' :: behind) tokens) :
    ∃ inner closer opener later, tokens = inner ++ closer :: opener :: later ∧
      (∀ token ∈ inner, token.kind.isPlain = true) ∧ closer.kind = .rightParen ∧
        opener.kind = .leftParen := by
  induction hlength : front.length using Nat.strongRecOn
    generalizing front previous column tokens with
  | _ length ih =>
    cases front with
    | nil =>
      obtain ⟨closer, rest, rfl, hcloser, hrest⟩ := hcut.exists_punctuation rfl
      obtain ⟨opener, later, rfl, hopener, -⟩ := hrest.exists_punctuation rfl
      exact ⟨[], closer, opener, later, rfl, nofun, hcloser, hopener⟩
    | cons first front =>
      cases hblank : Text.isBlank first with
      | true =>
        exact ih front.length (by rw [← hlength]; exact Nat.lt_succ_self _)
          (fun char hchar => hfront char (List.mem_cons_of_mem _ hchar))
          (hcut.after_blank hblank) rfl
      | false =>
        obtain ⟨token, rest, later, rfl, hstands, hlater⟩ := hcut.exists_first hblank
        have hsplit : first :: front ++ ')' :: '(' :: behind = token.text.toList ++ rest :=
          hstands.split
        have hsome := hstands.lexeme.chars_ne_nil
        have hhead : ∀ char ∈ token.text.toList.head?, QueryText.isModsChar char = true := by
          obtain ⟨head, others, hchars⟩ := List.exists_cons_of_ne_nil hsome
          rw [hchars] at hsplit
          obtain ⟨rfl, -⟩ := List.cons.inj hsplit
          rw [hchars]
          rintro char ⟨⟩
          exact hfront _ List.mem_cons_self
        obtain ⟨hplain, hnot⟩ := hstands.lexeme.plain_of_isModsChar hhead
        obtain ⟨more, hmore, rfl⟩ := exists_of_append_eq hnot hsplit.symm
        have hshorter : more.length < length := by
          rw [← hlength, hmore, List.length_append]
          exact Nat.lt_add_of_pos_left (List.length_pos_iff.mpr hsome)
        have hmods : ∀ char ∈ more, QueryText.isModsChar char = true := fun char hchar =>
          hfront char (hmore ▸ List.mem_append_right _ hchar)
        obtain ⟨inner, closer, opener, others, rfl, hinner, hkinds⟩ :=
          ih more.length hshorter hmods hlater rfl
        exact ⟨token :: inner, closer, opener, others, rfl, by simpa using ⟨hplain, hinner⟩,
          hkinds⟩

end Scan

/-! ## Reading the first pair of parentheses -/

theorem Word.nested_of_isPlain {words : List Word}
    (hwords : ∀ word ∈ words, word.kind.isPlain = true) : Nested words := by
  induction words with
  | nil => exact .nil
  | cons word words ih =>
    exact .cons (hwords word List.mem_cons_self)
      (ih fun other hother => hwords other (List.mem_cons_of_mem _ hother))

/-- A bracket that is closed before any has been opened was opened before. -/
theorem Word.not_nested_of_closes {words more : List Word} {closer : Word}
    (hwords : ∀ word ∈ words, word.kind.isPlain = true) (hcloses : closer.kind.Closes) :
    ¬ Nested (words ++ closer :: more) := by
  intro hnested
  have hclose : ∀ depth, closer.nesting depth = depth - 1 := by
    intro depth
    rcases hcloses with hkind | hkind <;> rw [Word.nesting, hkind]
  have hdepth : ∀ depth, more.foldl nesting (depth - 1) = depth := by
    intro depth
    have hfold := hnested depth
    rwa [List.foldl_append, List.foldl_cons, nested_of_isPlain hwords, hclose] at hfold
  -- Behind the bracket it makes no difference whether one or none was open.
  have hsame : (1 : Nat) = 0 := (hdepth 1).symm.trans (hdepth 0)
  cases hsame

section

variable {names : Names} {opener closer : Token} {inner others : List Token}
  {fault? : Option ScanFault} {node : Node} {after : Cursor}
  (hopener : opener.kind = .leftParen) (hinner : ∀ token ∈ inner, token.kind.isPlain = true)
  (hcloser : closer.kind = .rightParen)

include hopener hinner hcloser

/-- What stands in parentheses is taken with them, and nothing behind them. -/
theorem eq_of_readPrimary_parens {budget : Nat}
    (hrun : readPrimary (budget + 1) names ⟨opener :: (inner ++ closer :: others), fault?⟩ =
      .ok (node, after)) : after = ⟨others, fault?⟩ := by
  rw [readPrimary] at hrun
  obtain ⟨first, mid, hcurrent, hrun⟩ := exists_of_bind hrun
  cases hcurrent
  simp only [hopener] at hrun
  obtain ⟨given, mid, hadvance, hrun⟩ := exists_of_bind hrun
  obtain ⟨rfl, rfl⟩ := exists_of_advance (by simp [hopener]) hadvance
  obtain ⟨read, mid, hoperation, hrun⟩ := exists_of_bind hrun
  obtain ⟨taken, hcursor, hnested, -⟩ := (readsAgain (Nat.le_refl _)).operation names 0 _ _ _
    hoperation
  obtain ⟨last, final, hexpect, hrun⟩ := exists_of_bind hrun
  cases hrun
  obtain ⟨hlast, behind, hmid, rfl⟩ := exists_of_expect hexpect (by simp)
  obtain ⟨hsplit, rfl⟩ := Cursor.mk.inj hcursor
  rw [hmid] at hsplit
  obtain ⟨more, rfl, hbehind⟩ | ⟨more, rfl, hbehind⟩ := List.append_eq_append_iff.mp hsplit
  · cases more with
    | nil =>
      obtain ⟨-, rfl⟩ := List.cons.inj hbehind
      rfl
    | cons first more =>
      obtain ⟨rfl, -⟩ := List.cons.inj hbehind
      have hplain : ∀ word ∈ inner.map Token.word, word.kind.isPlain = true := by
        simpa [Token.word] using hinner
      rw [List.map_append, List.map_cons] at hnested
      exact absurd hnested (Word.not_nested_of_closes hplain (.inl hcloser))
  · cases more with
    | nil =>
      obtain ⟨-, rfl⟩ := List.cons.inj hbehind
      rfl
    | cons first more =>
      obtain ⟨rfl, -⟩ := List.cons.inj hbehind
      have hplain := hinner last (by simp)
      rw [hlast] at hplain
      cases hplain

/-- An expression in parentheses does not go on with other ones. -/
theorem eq_of_readOperation_parens {budget level : Nat} {next : Token} {rest : List Token}
    (hnext : next.kind = .leftParen) (hothers : others = next :: rest)
    (hrun : readOperation (budget + 3) names level
      ⟨opener :: (inner ++ closer :: others), fault?⟩ = .ok (node, after)) :
    after = ⟨others, fault?⟩ := by
  subst hothers
  rw [readOperation] at hrun
  obtain ⟨left, mid, hoperand, hrun⟩ := exists_of_bind hrun
  obtain ⟨primary, between, hprimary, hindexes⟩ :=
    exists_of_readOperand (by simp [hopener]) hoperand
  obtain rfl := eq_of_readPrimary_parens hopener hinner hcloser hprimary
  obtain rfl := eq_of_readIndexes (by simp [hnext]) hindexes
  exact (eq_of_readOperations (by simp [hnext]) hrun).2

end

/-! ## Queries and expressions -/

theorem QueryText.exists_of_ofText? {text : String} {parts : QueryText}
    (hquery : ofText? text = some parts) :
    ∃ front behind, (∀ char ∈ front, isModsChar char = true) ∧
      Text.trimChars text.toList = '(' :: (front ++ ')' :: '(' :: behind) := by
  unfold ofText? at hquery
  split at hquery
  · rename_i rest htrimmed
    dsimp only at hquery
    split at hquery
    · rename_i first others body hmods hbody
      refine ⟨rest.takeWhile isModsChar, body, Scan.mem_takeWhile rest, ?_⟩
      rw [htrimmed, ← hbody, List.takeWhile_append_dropWhile]
    · cases hquery
  · cases hquery

theorem Node.ofText_of_query {names : Names} {text : String} {parts : QueryText}
    (hquery : QueryText.ofText? text = some parts) :
    ∃ fault, Node.ofText names text = .error fault := by
  cases hread : Node.ofText names text with
  | error fault => exact ⟨fault, rfl⟩
  | ok node =>
    obtain ⟨tokens, column, hscan, -, hoperation⟩ := Node.exists_of_ofText hread
    have hcut : Scan.Cut none 0 text.toList (tokens ++ [⟨.finish, "", column⟩]) :=
      Scan.cut_of_complete (by rw [Scan.complete, hscan])
    obtain ⟨front, behind, hfront, htrimmed⟩ := QueryText.exists_of_ofText? hquery
    obtain ⟨blanks, after, hblanks, -, hchars⟩ := Text.exists_trimChars text.toList
    have hquoted : text.toList = blanks ++ '(' :: (front ++ ')' :: '(' :: (behind ++ after)) := by
      rw [hchars, htrimmed]
      simp
    rw [hquoted] at hcut
    obtain ⟨opener, later, htokens, hopener, hlater⟩ :=
      (hcut.after_blanks hblanks).exists_punctuation rfl
    obtain ⟨inner, closer, next, others, rfl, hinner, hcloser, hnext⟩ := hlater.exists_closer hfront
    rw [htokens] at hoperation
    have hafter := eq_of_readOperation_parens hopener hinner hcloser hnext rfl hoperation
    obtain ⟨hfinish, -⟩ := List.cons.inj (Cursor.mk.inj hafter).1
    rw [← hfinish] at hnext
    cases hnext

namespace Statement

theorem readQuery_of_ofText {names : Names} {text : String} {node : Node}
    (hnode : Node.ofText names text = .ok node) : readQuery names text = .ok none := by
  cases hparts : QueryText.ofText? text with
  | none => rw [readQuery, hparts]
  | some parts =>
    obtain ⟨fault, hfault⟩ := Node.ofText_of_query hparts
    rw [hfault] at hnode
    cases hnode

/-- A definition whose right side is an expression is read as that. -/
theorem readDefinition_of_ofText {names : Names} {line : String} {node : Node}
    (hnode : Node.ofText names (Text.trim (sides definitionOperator line).2) = .ok node) :
    readDefinition names line =
      (Target.ofText (sides definitionOperator line).1).map (.define · node) := by
  have hsome : (Text.trim (sides definitionOperator line).2 == "") = false := by
    refine beq_false_of_ne fun hempty => ?_
    rw [hempty] at hnode
    cases hnode
  have hquery := readQuery_of_ofText hnode
  rw [readDefinition]
  generalize sides definitionOperator line = parts at hsome hquery hnode ⊢
  obtain ⟨left, right⟩ := parts
  cases htarget : Target.ofText left with
  | error fault =>
    simp only [htarget]
    rfl
  | ok target =>
    simp only [htarget, hsome, hquery, hnode]
    rfl

/-- A text with the outline of a group query is no expression, whatever is defined.  So a
right side that is an expression means what it means without the check for a query, and none
can be read as both. -/
theorem query_excludes_expression (names : Names) (text : String) :
    ((QueryText.ofText? text).isSome = true → ∃ fault, Node.ofText names text = .error fault) ∧
      (∀ node, Node.ofText names text = .ok node → readQuery names text = .ok none ∧
        ∀ line, Text.trim (sides definitionOperator line).2 = text →
          readDefinition names line =
            (Target.ofText (sides definitionOperator line).1).map (.define · node)) ∧
      ¬ ((∃ query, readQuery names text = .ok (some query)) ∧
        ∃ node, Node.ofText names text = .ok node) := by
  refine ⟨fun hquery => ?_, fun node hnode => ⟨readQuery_of_ofText hnode, ?_⟩, ?_⟩
  · obtain ⟨parts, hparts⟩ := Option.isSome_iff_exists.mp hquery
    exact Node.ofText_of_query hparts
  · rintro line rfl
    exact readDefinition_of_ofText hnode
  · rintro ⟨⟨query, hquery⟩, node, hnode⟩
    rw [readQuery_of_ofText hnode] at hquery
    cases hquery

theorem weapons_excluded :
    let names := Patcher.names {}
    (∃ fault, Node.ofText names "(all)(A:WEAPON|true)" = .error fault) ∧
      readDefinition names "limit := (2)" = .ok (.define ⟨"limit", none⟩ (.literal (.integer 2))) := by
  intro names
  have hnode : Node.ofText names "(2)" = .ok (.literal (.integer 2)) := by rfl
  obtain ⟨hquery, -, -⟩ := query_excludes_expression names "(all)(A:WEAPON|true)"
  obtain ⟨-, hexpression, -⟩ := query_excludes_expression names "(2)"
  refine ⟨hquery (by decide), ?_⟩
  rw [(hexpression _ hnode).2 "limit := (2)" (by decide)]
  rfl

end Statement

end Patchwork
