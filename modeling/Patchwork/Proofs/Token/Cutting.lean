import Patchwork.Proofs.Token.Lexemes

/-!
# Cutting a text

A text that is scanned to its end is cut into its tokens: nothing is lost between them
but blanks, and each is as long as it can be.  The relation `Scan.Cut` says how the
characters from a column on are cut, by the recursion of the scanner.  What it says of a
token is carried to the place of the token in the text by `Scan.Cut.split`.
-/

namespace Patchwork

/-- The column after the last character of a token. -/
def Token.stop (token : Token) : Nat :=
  token.column + token.text.length

/-- A column is one of a character of the token. -/
def Token.Covers (token : Token) (column : Nat) : Prop :=
  token.column ≤ column ∧ column < token.stop

namespace Scan

/-- How the characters from a column on are cut into tokens, the last of which is the
end. -/
inductive Cut : Option TokenKind → Nat → List Char → List Token → Prop
  | finish {previous : Option TokenKind} {column : Nat} {blanks : List Char}
    (hblanks : ∀ char ∈ blanks, Text.isBlank char = true) :
    Cut previous column blanks [⟨.finish, "", column + blanks.length⟩]
  | token {previous : Option TokenKind} {column : Nat} {blanks chars rest : List Char}
    {token : Token} {tokens : List Token}
    (hblanks : ∀ char ∈ blanks, Text.isBlank char = true)
    (hstands : Stands previous (column + blanks.length) token chars rest)
    (hrest : Cut (some token.kind) token.stop rest tokens) :
    Cut previous column (blanks ++ chars) (token :: tokens)

section

variable {previous : Option TokenKind} {column : Nat} {chars : List Char} {tokens : List Token}

/-! ## One token at a time -/

namespace Stands

variable {token : Token} {rest : List Char}

theorem step_eq (hstands : Stands previous column token chars rest) :
    step previous column chars = .ok ⟨token, rest⟩ := by
  rw [hstands.split, hstands.lexeme.step_eq, String.ofList_toList, ← hstands.column]

theorem isFinish (hstands : Stands previous column token chars rest) :
    token.isFinish = false := by
  simp [Token.isFinish, hstands.lexeme.kind_ne_finish]

/-- A token has a character, and the first one is no blank. -/
theorem exists_first (hstands : Stands previous column token chars rest) :
    ∃ first others, chars = first :: others ∧ Text.isBlank first = false := by
  obtain ⟨first, others, htext⟩ := List.exists_cons_of_ne_nil hstands.lexeme.chars_ne_nil
  refine ⟨first, others ++ rest, by rw [hstands.split, htext, List.cons_append], ?_⟩
  exact hstands.lexeme.head_not_blank first (by rw [htext]; rfl)

theorem length_lt (hstands : Stands previous column token chars rest) :
    rest.length < chars.length := by
  have hnonempty := List.length_pos_iff.mpr hstands.lexeme.chars_ne_nil
  rw [hstands.split, List.length_append]
  omega

end Stands

/-- Blanks in front only move the place. -/
theorem scanFrom_blank (budget : Nat) (previous : Option TokenKind) (column : Nat)
    {char : Char} (hchar : Text.isBlank char = true) (chars : List Char) :
    scanFrom budget previous column (char :: chars) =
      scanFrom budget previous (column + 1) chars := by
  cases budget with
  | zero => rfl
  | succ budget =>
    have hcolumn : column + (char :: chars.takeWhile Text.isBlank).length =
        column + 1 + (chars.takeWhile Text.isBlank).length := by
      simp only [List.length_cons]
      omega
    simp only [scanFrom, List.takeWhile_cons_of_pos hchar, List.dropWhile_cons_of_pos hchar,
      hcolumn]

theorem scanFrom_blanks (budget : Nat) (previous : Option TokenKind) (column : Nat)
    {blanks : List Char} (hblanks : ∀ char ∈ blanks, Text.isBlank char = true) (chars : List Char) :
    scanFrom budget previous column (blanks ++ chars) =
      scanFrom budget previous (column + blanks.length) chars := by
  induction blanks generalizing column with
  | nil => rfl
  | cons blank blanks ih =>
    obtain ⟨hblank, hrest⟩ := List.forall_mem_cons.mp hblanks
    rw [List.cons_append, scanFrom_blank budget previous column hblank, ih _ hrest,
      List.length_cons, Nat.add_assoc, Nat.add_comm 1]

section

variable {previous : Option TokenKind} {column : Nat} {first : Char} {others rest : List Char}

/-- Where no blank is in front, scanning takes a step. -/
theorem scanFrom_step (budget : Nat) (hfirst : Text.isBlank first = false) :
    scanFrom (budget + 1) previous column (first :: others) =
      match step previous column (first :: others) with
      | .error fault => ⟨[], some fault⟩
      | .ok ⟨token, rest⟩ =>
        if token.isFinish then ⟨[token], none⟩
        else
          ⟨token :: (scanFrom budget (some token.kind) (column + token.text.length) rest).tokens,
            (scanFrom budget (some token.kind) (column + token.text.length) rest).fault?⟩ := by
  have htake : (first :: others).takeWhile Text.isBlank = [] :=
    List.takeWhile_cons_of_neg (by simp [hfirst])
  have hdrop : (first :: others).dropWhile Text.isBlank = first :: others :=
    List.dropWhile_cons_of_neg (by simp [hfirst])
  rw [scanFrom]
  simp only [htake, hdrop]
  rfl

/-- A token that stands at the front is scanned. -/
theorem scanFrom_stands (budget : Nat) {token : Token} {chars : List Char}
    (hstands : Stands previous column token chars rest) :
    scanFrom (budget + 1) previous column chars =
      ⟨token :: (scanFrom budget (some token.kind) token.stop rest).tokens,
        (scanFrom budget (some token.kind) token.stop rest).fault?⟩ := by
  have hstep := hstands.step_eq
  obtain ⟨first, others, rfl, hfirst⟩ := hstands.exists_first
  rw [scanFrom_step budget hfirst, hstep]
  simp only [hstands.isFinish, Bool.false_eq_true, if_false, Token.stop, hstands.column]

end

/-- What scanning makes of the blanks at the front and the token after them. -/
inductive Scanned (budget : Nat) (previous : Option TokenKind) (column : Nat) :
    List Char → Scan → Prop
  | finish {blanks : List Char} (hblanks : ∀ char ∈ blanks, Text.isBlank char = true) :
    Scanned budget previous column blanks ⟨[⟨.finish, "", column + blanks.length⟩], none⟩
  | stopped {blanks others : List Char} {first : Char} {fault : ScanFault}
    (hblanks : ∀ char ∈ blanks, Text.isBlank char = true) (hfirst : Text.isBlank first = false)
    (hstep : step previous (column + blanks.length) (first :: others) = .error fault) :
    Scanned budget previous column (blanks ++ first :: others) ⟨[], some fault⟩
  | token {blanks chars rest : List Char} {token : Token}
    (hblanks : ∀ char ∈ blanks, Text.isBlank char = true)
    (hstands : Stands previous (column + blanks.length) token chars rest) :
    Scanned budget previous column (blanks ++ chars)
      ⟨token :: (scanFrom budget (some token.kind) token.stop rest).tokens,
        (scanFrom budget (some token.kind) token.stop rest).fault?⟩

theorem scanned (budget : Nat) (previous : Option TokenKind) (column : Nat) (chars : List Char) :
    Scanned budget previous column chars (scanFrom (budget + 1) previous column chars) := by
  have hblanks : ∀ char ∈ chars.takeWhile Text.isBlank, Text.isBlank char = true :=
    mem_takeWhile chars
  have hfirst : ∀ char ∈ (chars.dropWhile Text.isBlank).head?, Text.isBlank char = false :=
    head?_dropWhile chars
  rw [← List.takeWhile_append_dropWhile (p := Text.isBlank) (l := chars)]
  generalize chars.dropWhile Text.isBlank = behind at *
  generalize chars.takeWhile Text.isBlank = blanks at *
  cases behind with
  | nil =>
    rw [scanFrom_blanks _ _ _ hblanks, List.append_nil]
    exact .finish hblanks
  | cons first others =>
    rw [scanFrom_blanks _ _ _ hblanks]
    cases hstep : step previous (column + blanks.length) (first :: others) with
    | error fault =>
      rw [scanFrom_step budget (hfirst first rfl), hstep]
      exact .stopped hblanks (hfirst first rfl) hstep
    | ok found =>
      rw [scanFrom_stands budget (stands_of_step hstep)]
      exact .token hblanks (stands_of_step hstep)

/-! ## Scanning is cutting -/

/-- A scan without a fault cuts the characters. -/
theorem cut_of_scanFrom {budget : Nat} (hbudget : chars.length < budget)
    (hscan : scanFrom budget previous column chars = ⟨tokens, none⟩) :
    Cut previous column chars tokens := by
  induction budget generalizing previous column chars tokens with
  | zero => omega
  | succ budget ih =>
    have hscanned := scanned budget previous column chars
    rw [hscan] at hscanned
    generalize htokens : (⟨tokens, none⟩ : Scan) = scan at hscanned
    cases hscanned with
    | finish hblanks =>
      cases htokens
      exact .finish hblanks
    | stopped => cases htokens
    | token hblanks hstands =>
      obtain ⟨rfl, hnone⟩ := Scan.mk.inj htokens
      have hshorter := hstands.length_lt
      rw [List.length_append] at hbudget
      exact .token hblanks hstands (ih (by omega) (congrArg (Scan.mk _) hnone.symm))

/-- What is cut is scanned as it is cut. -/
theorem scanFrom_of_cut (hcut : Cut previous column chars tokens) {budget : Nat}
    (hbudget : chars.length < budget) :
    scanFrom budget previous column chars = ⟨tokens, none⟩ := by
  induction hcut generalizing budget with
  | @finish previous column blanks hblanks =>
    obtain _ | budget := budget
    · omega
    · rw [← List.append_nil blanks, scanFrom_blanks _ _ _ hblanks, List.append_nil]
      rfl
  | token hblanks hstands _ ih =>
    obtain _ | budget := budget
    · omega
    · have hshorter := hstands.length_lt
      rw [List.length_append] at hbudget
      rw [scanFrom_blanks _ _ _ hblanks, scanFrom_stands budget hstands, ih (by omega)]

theorem cut_of_complete {text : String} (hcomplete : complete text = .ok tokens) :
    Cut none 0 text.toList tokens := by
  rw [complete] at hcomplete
  split at hcomplete
  · rename_i scanned hscan
    cases hcomplete
    exact cut_of_scanFrom (Nat.lt_succ_self _) hscan
  · cases hcomplete

theorem complete_of_cut (hcut : Cut none 0 chars tokens) :
    complete (String.ofList chars) = .ok tokens := by
  have hscan : ofText (String.ofList chars) = ⟨tokens, none⟩ := by
    rw [ofText, String.toList_ofList, String.length_ofList]
    exact scanFrom_of_cut hcut (Nat.lt_succ_self _)
  rw [complete, hscan]

/-! ## What is true of all cuts -/

/-- A token stands at the front where there is no blank. -/
theorem Cut.exists_first {first : Char} {others : List Char}
    (hcut : Cut previous column (first :: others) tokens) (hfirst : Text.isBlank first = false) :
    ∃ token rest later, tokens = token :: later ∧
      Stands previous column token (first :: others) rest ∧
      Cut (some token.kind) token.stop rest later := by
  generalize hchars : first :: others = chars at hcut
  cases hcut with
  | finish hblanks =>
    rw [hblanks first (hchars ▸ List.mem_cons_self)] at hfirst
    cases hfirst
  | @token _ _ blanks _ rest token later hblanks hstands hrest =>
    cases blanks with
    | nil =>
      cases hchars
      exact ⟨token, rest, later, rfl, hstands, hrest⟩
    | cons blank blanks =>
      obtain ⟨rfl, -⟩ := List.cons.inj hchars
      rw [hblanks first List.mem_cons_self] at hfirst
      cases hfirst

/-- A blank in front only moves the cut. -/
theorem Cut.after_blank {blank : Char} (hcut : Cut previous column (blank :: chars) tokens)
    (hblank : Text.isBlank blank = true) : Cut previous (column + 1) chars tokens := by
  generalize hchars : blank :: chars = all at hcut
  cases hcut with
  | finish hblanks =>
    subst hchars
    have hlength : column + (blank :: chars).length = column + 1 + chars.length := by
      rw [List.length_cons]
      omega
    rw [hlength]
    exact .finish fun char hchar => hblanks char (List.mem_cons_of_mem _ hchar)
  | @token _ _ blanks behind rest token later hblanks hstands hrest =>
    cases blanks with
    | nil =>
      obtain ⟨first, others, hfront, hfirst⟩ := hstands.exists_first
      have hbehind : blank :: chars = first :: others := Eq.trans hchars hfront
      obtain ⟨rfl, -⟩ := List.cons.inj hbehind
      rw [hfirst] at hblank
      cases hblank
    | cons other blanks =>
      obtain ⟨rfl, rfl⟩ := List.cons.inj hchars
      have hcolumn : column + (blank :: blanks).length = column + 1 + blanks.length := by
        rw [List.length_cons]
        omega
      exact .token (fun char hchar => hblanks char (List.mem_cons_of_mem _ hchar))
        (hcolumn ▸ hstands) hrest

theorem Cut.after_blanks {blanks : List Char}
    (hblanks : ∀ char ∈ blanks, Text.isBlank char = true)
    (hcut : Cut previous column (blanks ++ chars) tokens) :
    Cut previous (column + blanks.length) chars tokens := by
  induction blanks generalizing column with
  | nil => exact hcut
  | cons blank blanks ih =>
    obtain ⟨hblank, hrest⟩ := List.forall_mem_cons.mp hblanks
    have hlater := ih hrest (hcut.after_blank hblank)
    rwa [Nat.add_right_comm] at hlater

/-- A text that starts with punctuation is cut behind it. -/
theorem Cut.exists_punctuation {char : Char} {kind : TokenKind}
    (hkind : punctuation? char = some kind) (hcut : Cut previous column (char :: chars) tokens) :
    ∃ token later, tokens = token :: later ∧ token.kind = kind ∧
      Cut (some kind) token.stop chars later := by
  have hlexeme : Lexeme previous kind [char] chars := .punctuation hkind
  have hblank := hlexeme.head_not_blank char rfl
  obtain ⟨token, rest, later, rfl, hstands, hlater⟩ := hcut.exists_first hblank
  have hstep := hstands.step_eq.symm.trans (hlexeme.step_eq column)
  cases hstep
  exact ⟨_, later, rfl, rfl, hlater⟩

/-- Where a token of a cut stands: after the characters in front of it, as the end of the
text or as a lexeme. -/
theorem Cut.split (hcut : Cut previous column chars tokens) {before after : List Token}
    {token : Token} (htokens : tokens = before ++ token :: after) :
    ∃ front rest, chars = front ++ (token.text.toList ++ rest) ∧
      token.column = column + front.length ∧
      (token.kind = .finish ∧ token.text = "" ∧ rest = [] ∨
        Lexeme ((before.getLast?.map Token.kind).or previous) token.kind token.text.toList
          rest) := by
  induction hcut generalizing before with
  | @finish previous column blanks hblanks =>
    cases before with
    | nil =>
      cases htokens
      exact ⟨blanks, [], by simp, rfl, Or.inl ⟨rfl, rfl, rfl⟩⟩
    | cons first others => simp at htokens
  | @token previous column blanks chars rest head tail hblanks hstands _ ih =>
    cases before with
    | nil =>
      cases htokens
      exact ⟨blanks, rest, by rw [hstands.split], hstands.column, Or.inr hstands.lexeme⟩
    | cons first others =>
      obtain ⟨rfl, htail⟩ := List.cons.inj htokens
      obtain ⟨front, after, rfl, hcolumn, hlexeme⟩ := ih htail
      refine ⟨blanks ++ (head.text.toList ++ front), after, ?_, ?_, ?_⟩
      · rw [hstands.split]
        simp only [List.append_assoc]
      · rw [hcolumn, Token.stop, hstands.column]
        simp only [List.length_append, String.length_toList]
        omega
      · refine hlexeme.imp_right fun hlexeme => ?_
        rw [List.getLast?_cons]
        cases hlast : others.getLast? with
        | none => simpa [hlast] using hlexeme
        | some last => simpa [hlast] using hlexeme

/-- A character no token covers is a blank. -/
theorem Cut.cover (hcut : Cut previous column chars tokens) {offset : Nat} {char : Char}
    (hchar : chars[offset]? = some char) :
    Text.isBlank char = true ∨ ∃ token ∈ tokens, token.Covers (column + offset) := by
  induction hcut generalizing offset with
  | finish hblanks => exact Or.inl (hblanks char (List.mem_of_getElem? hchar))
  | @token previous column blanks chars rest token tokens hblanks hstands _ ih =>
    have hcolumn := hstands.column
    rw [hstands.split] at hchar
    by_cases hblank : offset < blanks.length
    · rw [List.getElem?_append_left hblank] at hchar
      exact Or.inl (hblanks char (List.mem_of_getElem? hchar))
    rw [List.getElem?_append_right (Nat.le_of_not_lt hblank)] at hchar
    by_cases hinside : offset - blanks.length < token.text.length
    · refine Or.inr ⟨token, List.mem_cons_self, ?_⟩
      rw [Token.Covers, Token.stop, hcolumn]
      omega
    · rw [List.getElem?_append_right (Nat.le_of_not_lt hinside)] at hchar
      refine (ih hchar).imp_right fun ⟨later, hlater, hcovers⟩ => ?_
      refine ⟨later, List.mem_cons_of_mem _ hlater, ?_⟩
      have hoffset : token.stop + (offset - blanks.length - token.text.toList.length) =
          column + offset := by
        rw [Token.stop, hcolumn, String.length_toList]
        omega
      exact hoffset ▸ hcovers

theorem Cut.column_le (hcut : Cut previous column chars tokens) {token : Token}
    (htoken : token ∈ tokens) : column ≤ token.column := by
  obtain ⟨before, after, htokens⟩ := List.append_of_mem htoken
  obtain ⟨front, -, -, hcolumn, -⟩ := hcut.split htokens
  omega

/-- Each token starts where the ones before it have stopped. -/
theorem Cut.ordered (hcut : Cut previous column chars tokens) :
    tokens.Pairwise fun earlier later => earlier.stop ≤ later.column := by
  induction hcut with
  | finish => exact List.pairwise_singleton _ _
  | token _ _ hrest ih =>
    exact List.pairwise_cons.mpr ⟨fun later hlater => hrest.column_le hlater, ih⟩

/-- The end, and only the end, is the last token. -/
theorem Cut.finished (hcut : Cut previous column chars tokens) :
    ∃ words, tokens = words ++ [⟨.finish, "", column + chars.length⟩] ∧
      ∀ word ∈ words, word.kind ≠ .finish ∧ word.text ≠ "" := by
  induction hcut with
  | finish => exact ⟨[], rfl, nofun⟩
  | @token previous column blanks chars rest token tokens _ hstands _ ih =>
    obtain ⟨words, rfl, hwords⟩ := ih
    refine ⟨token :: words, ?_, ?_⟩
    · have hstop : token.stop + rest.length = column + (blanks ++ chars).length := by
        rw [Token.stop, hstands.column, hstands.split]
        simp only [List.length_append, String.length_toList]
        omega
      rw [hstop, List.cons_append]
    · rintro word (_ | ⟨_, hword⟩)
      · refine ⟨hstands.lexeme.kind_ne_finish, fun hempty => ?_⟩
        exact hstands.lexeme.chars_ne_nil (by rw [hempty]; rfl)
      · exact hwords word hword

theorem Cut.length_le (hcut : Cut previous column chars tokens) :
    tokens.length ≤ chars.length + 1 := by
  induction hcut with
  | finish => simp
  | token _ hstands _ ih =>
    have hshorter := hstands.length_lt
    rw [List.length_cons, List.length_append]
    omega

end

/-! ## The tokens of a text -/

/-- The token that covers the minus sign at a position: a string, an arrow that starts there,
or a token that starts there and is a number where a digit comes next and an operand may
start, and the operator elsewhere. -/
def MinusAt (source : List Char) (tokens : List Token) (position : Nat) : Prop :=
  ∃ before token after, tokens = before ++ token :: after ∧ token.Covers position ∧
    ((∃ content, token.kind = .string content) ∨
      token.column = position ∧ (token.kind = .operator ∧ token.text = "->" ∨
        (token.kind.IsNumber ↔ startsWithDigit (source.drop (position + 1)) = true ∧
          ∀ previous ∈ before.getLast?,
            previous.kind ∈ [.operator, .leftParen, .leftBracket, .comma, .atSign]) ∧
        (¬ token.kind.IsNumber → token.kind = .operator ∧ token.text = "-")))

/-- Some tokens are a text that was cut: each is the part of it at its column, only blanks
stand between them, the last one is the end, and none could be longer. -/
structure IsCut (source : List Char) (tokens : List Token) : Prop where
  slice : ∀ token ∈ tokens, token.stop ≤ source.length ∧
    token.text.toList = (source.drop token.column).take token.text.length
  ordered : tokens.Pairwise fun earlier later => earlier.stop ≤ later.column
  blank : ∀ position char, source[position]? = some char →
    (∀ token ∈ tokens, ¬ token.Covers position) → Text.isBlank char = true
  finish : ∃ words, tokens = words ++ [⟨.finish, "", source.length⟩] ∧
    ∀ word ∈ words, word.kind ≠ .finish ∧ word.text ≠ ""
  few : tokens.length ≤ source.length + 1
  longest : ∀ token ∈ tokens, ¬ token.Extends (source.drop token.stop)
  minus : ∀ position, source[position]? = some '-' → MinusAt source tokens position

theorem operandMayStart_iff {previous : Option TokenKind} :
    operandMayStart previous = true ↔ ∀ kind ∈ previous,
      kind ∈ [.operator, .leftParen, .leftBracket, .comma, TokenKind.atSign] := by
  cases previous with
  | none => simp [operandMayStart]
  | some kind => cases kind <;> simp [operandMayStart, TokenKind.precedesOperand]

theorem Cut.minusAt {source : List Char} {tokens : List Token}
    (hcut : Cut none 0 source tokens) {position : Nat}
    (hchar : source[position]? = some '-') : MinusAt source tokens position := by
  obtain hblank | ⟨token, htoken, hcovers⟩ := hcut.cover hchar
  · exact absurd hblank (by decide)
  rw [Nat.zero_add] at hcovers
  obtain ⟨before, after, htokens⟩ := List.append_of_mem htoken
  refine ⟨before, token, after, htokens, hcovers, ?_⟩
  obtain ⟨front, rest, hsource, hcolumn, hstands⟩ := hcut.split htokens
  rw [Nat.zero_add] at hcolumn
  obtain ⟨hlow, hhigh⟩ := hcovers
  rw [Token.stop] at hhigh
  obtain ⟨-, hempty, -⟩ | hlexeme := hstands
  · rw [hempty, String.length_empty] at hhigh
    omega
  have hinside : token.text.toList[position - token.column]? = some '-' := by
    rw [← hchar, hsource, List.getElem?_append_right (by omega),
      List.getElem?_append_left (by rw [String.length_toList]; omega), hcolumn]
  refine (hlexeme.minus hinside).imp_right fun ⟨hoffset, hcase⟩ => ?_
  have hposition : token.column = position := by omega
  have htext : ∀ {other : String}, token.text.toList = other.toList → token.text = other :=
    String.toList_inj.mp
  have hdrop : source.drop (position + 1) = token.text.toList.tail ++ rest := by
    rw [hsource, ← hposition, hcolumn, List.drop_append, List.drop_of_length_le (by omega),
      List.nil_append, Nat.add_sub_cancel_left, List.drop_one,
      List.tail_append_of_ne_nil hlexeme.chars_ne_nil]
  refine ⟨hposition, hcase.imp (And.imp_right htext) fun ⟨hnumber, hother⟩ => ⟨?_, ?_⟩⟩
  · rw [hnumber, hdrop, operandMayStart_iff]
    cases before.getLast? <;> simp
  · exact fun hnot => (hother hnot).imp_right htext

theorem Cut.isCut {source : List Char} {tokens : List Token} (hcut : Cut none 0 source tokens) :
    IsCut source tokens where
  slice token htoken := by
    obtain ⟨before, after, htokens⟩ := List.append_of_mem htoken
    obtain ⟨front, rest, rfl, hcolumn, -⟩ := hcut.split htokens
    rw [Nat.zero_add] at hcolumn
    refine ⟨?_, ?_⟩
    · rw [Token.stop, hcolumn]
      simp only [List.length_append, String.length_toList]
      omega
    · rw [hcolumn, List.drop_left, ← String.length_toList, List.take_left]
  ordered := hcut.ordered
  blank position char hchar huncovered := by
    refine (hcut.cover hchar).resolve_right fun ⟨covering, hmem, hcovers⟩ => ?_
    exact huncovered covering hmem (Nat.zero_add position ▸ hcovers)
  finish := Nat.zero_add source.length ▸ hcut.finished
  few := hcut.length_le
  longest token htoken := by
    obtain ⟨before, after, htokens⟩ := List.append_of_mem htoken
    obtain ⟨front, rest, rfl, hcolumn, hstands⟩ := hcut.split htokens
    have hdrop : (front ++ (token.text.toList ++ rest)).drop token.stop = rest := by
      rw [Token.stop, hcolumn, Nat.zero_add, ← List.append_assoc, ← String.length_toList,
        ← List.length_append, List.drop_left]
    rw [hdrop]
    obtain ⟨hfinish, -, -⟩ | hlexeme := hstands
    · simp [Token.Extends, hfinish]
    · exact hlexeme.not_extends
  minus _ hchar := hcut.minusAt hchar

/-- A text that can be scanned is cut into its tokens, and nothing of it is lost. -/
theorem isCut_of_complete {text : String} {tokens : List Token}
    (hcomplete : complete text = .ok tokens) : IsCut text.toList tokens :=
  (cut_of_complete hcomplete).isCut

/-- The first minus sign follows a name and is the operator, the last one follows an arrow
and belongs to the number. -/
theorem isCut_damage : ∃ tokens : List Token,
    tokens.map Token.text = ["damage", "-", "2", "->", "-1", ""] ∧
      complete "damage -2->-1" = .ok tokens ∧ IsCut "damage -2->-1".toList tokens :=
  ⟨[⟨.identifier, "damage", 0⟩, ⟨.operator, "-", 7⟩, ⟨.int 2, "2", 8⟩, ⟨.operator, "->", 9⟩,
    ⟨.int (-1), "-1", 11⟩, ⟨.finish, "", 13⟩], rfl, rfl, isCut_of_complete rfl⟩

end Scan

end Patchwork
