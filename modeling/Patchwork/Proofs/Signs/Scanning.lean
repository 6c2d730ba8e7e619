import Patchwork.Proofs.Expression.Scanning
import Patchwork.Proofs.Signs.Numbers
import Patchwork.Proofs.Token.Cutting

/-!
# A blank after a minus sign

A blank directly after the minus sign of a number token makes two tokens of it: the sign, which
is an operator then, and the number without it.  All other tokens are scanned as before.
-/

namespace Patchwork

section

variable (kind other : TokenKind)

/-- Some tokens start with a number, and others with a minus sign and a number; the words after
these are the same. -/
inductive SignHere : List Token → List Token → Prop
  | intro {number minus unsigned : Token} {rest rest' : List Token} (hnumber : number.kind = kind)
    (hminus : minus.word = .operator "-") (hunsigned : unsigned.kind = other)
    (hrest : rest'.map Token.word = rest.map Token.word) :
    SignHere (number :: rest) (minus :: unsigned :: rest')

/-- Some tokens start with the same word, and go on alike but for one number with a minus sign,
if it is still ahead. -/
inductive SignAhead : List Token → List Token → Prop
  | passed {token token' : Token} {rest rest' : List Token} (hword : token'.word = token.word)
    (hrest : rest'.map Token.word = rest.map Token.word) :
    SignAhead (token :: rest) (token' :: rest')
  | next {token token' : Token} {rest rest' : List Token} (hword : token'.word = token.word)
    (hprecedes : token.kind.precedesOperand = true) (hrest : SignHere kind other rest rest') :
    SignAhead (token :: rest) (token' :: rest')
  | later {token token' : Token} {rest rest' : List Token} (hword : token'.word = token.word)
    (hrest : SignAhead rest rest') : SignAhead (token :: rest) (token' :: rest')

end

section

variable {kind other : TokenKind} {tokens tokens' : List Token}

theorem SignHere.length_le (hhere : SignHere kind other tokens tokens') :
    tokens.length ≤ tokens'.length := by
  cases hhere with
  | intro _ _ _ hrest =>
    have hlength := congrArg List.length hrest
    simp only [List.length_map] at hlength
    simp only [List.length_cons]
    omega

theorem SignAhead.length_le (hahead : SignAhead kind other tokens tokens') :
    tokens.length ≤ tokens'.length := by
  induction hahead with
  | passed _ hrest =>
    have hlength := congrArg List.length hrest
    simp only [List.length_map] at hlength
    simp only [List.length_cons]
    omega
  | next _ _ hhere => exact Nat.succ_le_succ hhere.length_le
  | later _ _ ih => exact Nat.succ_le_succ ih

end

namespace Scan

/-! ## One token after the other -/

/-- Where one token stands, it also stands at another column and after another token, if that
makes no difference for whether an operand may start. -/
theorem Stands.again {previous place : Option TokenKind} {column : Nat} {token : Token}
    {chars rest : List Char} (hstands : Stands previous column token chars rest)
    (hplace : operandMayStart place = operandMayStart previous) (later : Nat) :
    Stands place later ⟨token.kind, token.text, later⟩ chars rest where
  column := rfl
  split := hstands.split
  lexeme := hstands.lexeme.after hplace

/-- Scanning looks neither at the column nor, but for whether an operand may start, at the
token before. -/
theorem words_scanFrom {budget larger : Nat} {previous place : Option TokenKind}
    {chars : List Char} (hbudget : chars.length < budget) (hlarger : chars.length < larger)
    (hplace : operandMayStart place = operandMayStart previous) (column later : Nat) :
    (scanFrom larger place later chars).tokens.map Token.word =
      (scanFrom budget previous column chars).tokens.map Token.word := by
  induction budget generalizing larger previous place chars column later with
  | zero => omega
  | succ budget ih =>
    obtain ⟨larger, rfl⟩ := Nat.exists_eq_succ_of_ne_zero (Nat.ne_zero_of_lt hlarger)
    have hscan := scanned budget previous column chars
    generalize scanFrom (budget + 1) previous column chars = scan at hscan
    cases hscan with
    | finish hblanks =>
      rw [← List.append_nil chars, scanFrom_blanks _ _ _ hblanks]
      rfl
    | @stopped blanks others first fault hblanks hfirst hstep =>
      rw [scanFrom_blanks _ _ _ hblanks, scanFrom_step larger hfirst]
      cases hother : step place (later + blanks.length) (first :: others) with
      | error fault => rfl
      | ok found =>
        have hstands := (stands_of_step hother).again hplace.symm (column + blanks.length)
        have hgiven := hstands.lexeme.step_eq (column + blanks.length)
        rw [← hstands.split, hstep] at hgiven
        cases hgiven
    | @token blanks behind rest token hblanks hstands =>
      have hshorter := hstands.length_lt
      rw [List.length_append] at hbudget hlarger
      rw [scanFrom_blanks _ _ _ hblanks, scanFrom_stands larger (hstands.again hplace _)]
      exact congrArg (List.cons token.word) (ih (by omega) (by omega) rfl _ _)

theorem le_column_scanFrom {budget : Nat} {previous : Option TokenKind} {column : Nat}
    {chars : List Char} {token : Token}
    (htoken : token ∈ (scanFrom budget previous column chars).tokens) : column ≤ token.column := by
  induction budget generalizing previous column chars with
  | zero => cases htoken
  | succ budget ih =>
    have hscan := scanned budget previous column chars
    generalize scanFrom (budget + 1) previous column chars = scan at hscan htoken
    cases hscan with
    | finish =>
      obtain rfl := List.mem_singleton.mp htoken
      exact Nat.le_add_right _ _
    | stopped => cases htoken
    | token hblanks hstands =>
      have hcolumn := hstands.column
      obtain rfl | hlater := List.mem_cons.mp htoken
      · omega
      · have hstop := ih hlater
        rw [Token.stop] at hstop
        omega

/-- A token that is not the end stands somewhere as a lexeme. -/
theorem exists_lexeme_of_scanFrom {budget : Nat} {previous : Option TokenKind} {column : Nat}
    {chars : List Char} {token : Token}
    (htoken : token ∈ (scanFrom budget previous column chars).tokens)
    (hkind : token.kind ≠ .finish) :
    ∃ place front rest, chars = front ++ (token.text.toList ++ rest) ∧
      token.column = column + front.length ∧ Lexeme place token.kind token.text.toList rest := by
  induction budget generalizing previous column chars with
  | zero => cases htoken
  | succ budget ih =>
    have hscan := scanned budget previous column chars
    generalize scanFrom (budget + 1) previous column chars = scan at hscan htoken
    cases hscan with
    | finish =>
      obtain rfl := List.mem_singleton.mp htoken
      exact absurd rfl hkind
    | stopped => cases htoken
    | @token blanks behind rest first hblanks hstands =>
      obtain rfl | hlater := List.mem_cons.mp htoken
      · exact ⟨previous, blanks, rest, by rw [hstands.split], hstands.column, hstands.lexeme⟩
      · obtain ⟨place, front, after, rfl, hcolumn, hlexeme⟩ := ih hlater
        refine ⟨place, blanks ++ (first.text.toList ++ front), after, ?_, ?_, hlexeme⟩
        · rw [hstands.split]
          simp only [List.append_assoc]
        · rw [hcolumn, Token.stop, hstands.column]
          simp only [List.length_append, String.length_toList]
          omega

/-! ## The sign -/

/-- Of the characters after a lexeme the first one matters, and whether they are a fraction. -/
theorem Lexeme.of_next {previous : Option TokenKind} {kind : TokenKind}
    {chars rest other : List Char} (hlexeme : Lexeme previous kind chars rest)
    (hnext : other.head? = rest.head?)
    (hfraction : startsWithFraction other = startsWithFraction rest) :
    Lexeme previous kind chars other := by
  have hdigit : startsWithDigit other = startsWithDigit rest := by
    cases other <;> cases rest <;> cases hnext <;> rfl
  have htake : other.take 1 = rest.take 1 := by
    rw [List.take_one, List.take_one, hnext]
  cases hlexeme with
  | atSign => exact .atSign
  | integer hsign hbody hvalue =>
    cases hbody with
    | whole hdigits hend hnot =>
      exact .integer hsign (.whole hdigits (hdigit.trans hend) (hfraction.trans hnot)) hvalue
  | decimal hsign hbody hvalue =>
    cases hbody with
    | pointed hwhole hdigits hend =>
      exact .decimal hsign (.pointed hwhole hdigits (hdigit.trans hend)) hvalue
  | word hfirst hothers hend => exact .word hfirst hothers (hnext ▸ hend)
  | string hcontent => exact .string hcontent
  | pairOperator hpair => exact .pairOperator hpair
  | singleOperator hsingle hpair hminus =>
    exact .singleOperator hsingle (htake ▸ hpair) (hdigit ▸ hminus)
  | punctuation hkind => exact .punctuation hkind

theorem startsWithFraction_cons (char : Char) {others rest : List Char}
    (hdigit : startsWithDigit others = startsWithDigit rest) :
    startsWithFraction (char :: others) = startsWithFraction (char :: rest) := by
  by_cases hpoint : char = '.'
  · rw [hpoint]
    exact hdigit
  · have hnot : ∀ chars, startsWithFraction (char :: chars) = false := by
      intro chars
      rw [startsWithFraction]
      exact fun _ hchars => hpoint (List.cons.inj hchars).1
    rw [hnot, hnot]

/-- What stands after a minus sign does not matter for a lexeme in front of it. -/
theorem Lexeme.before_minus {previous : Option TokenKind} {kind : TokenKind}
    {chars more after : List Char} (hlexeme : Lexeme previous kind chars (more ++ '-' :: after))
    (later : List Char) : Lexeme previous kind chars (more ++ '-' :: later) := by
  refine hlexeme.of_next ?_ ?_
  · cases more <;> rfl
  · cases more with
    | nil => rfl
    | cons first others =>
      refine startsWithFraction_cons first ?_
      cases others <;> rfl

/-- The number token of which a minus sign is the first character. -/
theorem signHere_scanFrom {budget larger : Nat} {previous : Option TokenKind} {column : Nat}
    {after rest : List Char} {token : Token}
    (hstands : Stands previous column token ('-' :: after) rest) (hkind : token.kind.IsNumber)
    (hbudget : after.length < budget) (hlarger : after.length + 2 < larger) (later : Nat) :
    operandMayStart previous = true ∧ ∃ other, token.kind.IsOpposite other ∧
      SignHere token.kind other
        (token :: (scanFrom budget (some token.kind) token.stop rest).tokens)
        (scanFrom larger previous later ('-' :: ' ' :: after)).tokens := by
  obtain ⟨body, hbody⟩ : ∃ body, token.text.toList = '-' :: body := by
    obtain ⟨first, body, hchars⟩ := List.exists_cons_of_ne_nil hstands.lexeme.chars_ne_nil
    have hsplit := hstands.split
    rw [hchars, List.cons_append] at hsplit
    exact ⟨body, hchars.trans (by rw [(List.cons.inj hsplit).1])⟩
  have hlexeme := hstands.lexeme
  have hsplit := hstands.split
  rw [hbody] at hlexeme hsplit
  obtain rfl : after = body ++ rest := (List.cons.inj hsplit).2
  have hoperand : operandMayStart previous = true := by
    obtain ⟨content, hstring⟩ | ⟨-, harrow | hminus⟩ :=
      hlexeme.minus (rfl : ('-' :: body)[0]? = some '-')
    · rw [hstring] at hkind
      exact hkind.elim
    · rw [harrow.1] at hkind
      exact hkind.elim
    · exact (hminus.1.mp hkind).2
  obtain ⟨other, hopposite, hunsigned⟩ := hlexeme.unsigned hkind (some .operator)
  refine ⟨hoperand, other, hopposite, ?_⟩
  obtain ⟨larger, rfl⟩ : ∃ fewer, larger = fewer + 2 := ⟨larger - 2, by omega⟩
  -- The sign alone, and after the blank the number.
  have hsign : Lexeme previous .operator ['-'] (' ' :: (body ++ rest)) :=
    .singleOperator (by decide) (by simp [pairOperators]) fun _ => rfl
  have hminus : Stands previous later ⟨.operator, "-", later⟩ ('-' :: ' ' :: (body ++ rest))
      (' ' :: (body ++ rest)) := by
    have htext : "-".toList = ['-'] := by decide
    exact ⟨rfl, by rw [htext]; rfl, htext ▸ hsign⟩
  have hnumber : ∀ column, Stands (some .operator) column ⟨other, String.ofList body, column⟩
      (body ++ rest) rest := by
    intro column
    refine ⟨rfl, by rw [String.toList_ofList], ?_⟩
    rwa [String.toList_ofList]
  rw [scanFrom_stands _ hminus, scanFrom_blank _ _ _ (by decide : Text.isBlank ' ' = true),
    scanFrom_stands _ (hnumber _)]
  have hplace : operandMayStart (some other) = operandMayStart (some token.kind) := by
    obtain ⟨value, opposite, hvalue, hopposite, -⟩ := hopposite
    rw [TokenKind.not_operandMayStart_of_number? hvalue,
      TokenKind.not_operandMayStart_of_number? hopposite]
  rw [List.length_append] at hbudget hlarger
  exact .intro rfl rfl rfl (words_scanFrom (by omega) (by omega) hplace _ _)

/-- The number token at a minus sign among all tokens. -/
theorem sign_scanFrom {budget larger : Nat} {previous : Option TokenKind} {column : Nat}
    {before after : List Char} {token : Token}
    (htoken : token ∈ (scanFrom budget previous column (before ++ '-' :: after)).tokens)
    (hkind : token.kind.IsNumber) (hcolumn : token.column = column + before.length)
    (hbudget : (before ++ '-' :: after).length < budget)
    (hlarger : (before ++ '-' :: ' ' :: after).length < larger) (later : Nat) :
    ∃ other, token.kind.IsOpposite other ∧
      (operandMayStart previous = true ∧ SignHere token.kind other
          (scanFrom budget previous column (before ++ '-' :: after)).tokens
          (scanFrom larger previous later (before ++ '-' :: ' ' :: after)).tokens ∨
        SignAhead token.kind other
          (scanFrom budget previous column (before ++ '-' :: after)).tokens
          (scanFrom larger previous later (before ++ '-' :: ' ' :: after)).tokens) := by
  induction budget generalizing previous column before larger later with
  | zero => cases htoken
  | succ budget ih =>
    obtain ⟨larger, rfl⟩ := Nat.exists_eq_succ_of_ne_zero (Nat.ne_zero_of_lt hlarger)
    have hminus : Text.isBlank '-' = false := by decide
    have hscan := scanned budget previous column (before ++ '-' :: after)
    generalize hscanned : scanFrom (budget + 1) previous column (before ++ '-' :: after) = scan
      at hscan htoken ⊢
    generalize hchars : before ++ '-' :: after = chars at hscan
    cases hscan with
    | finish hblanks =>
      rw [hblanks '-' (hchars ▸ List.mem_append_right _ List.mem_cons_self)] at hminus
      cases hminus
    | stopped => cases htoken
    | @token blanks behind rest first hblanks hstands =>
      have hfirst := hstands.column
      -- The blanks stand in front of the minus sign.
      have hnot : '-' ∉ blanks := fun hmem =>
        Bool.noConfusion (hminus.symm.trans (hblanks '-' hmem))
      obtain ⟨front, rfl, rfl⟩ := exists_of_append_eq hnot hchars.symm
      have hnonempty := List.length_pos_iff.mpr hstands.lexeme.chars_ne_nil
      have hlater : ∀ {token : Token}, token ∈ (scanFrom budget (some first.kind) first.stop
          rest).tokens → first.column + first.text.toList.length ≤ token.column := fun htoken => by
        have hstop := le_column_scanFrom htoken
        rwa [Token.stop, ← String.length_toList] at hstop
      simp only [List.length_append, List.length_cons] at hcolumn hbudget hlarger
      rw [List.append_assoc, scanFrom_blanks _ _ _ hblanks]
      cases front with
      | nil =>
        rw [List.nil_append] at hstands ⊢
        obtain rfl | hmem := List.mem_cons.mp htoken
        · obtain ⟨hoperand, other, hopposite, hhere⟩ :=
            signHere_scanFrom hstands hkind (by omega : after.length < budget)
              (by omega : after.length + 2 < larger + 1) (later + blanks.length)
          exact ⟨other, hopposite, .inl ⟨hoperand, hhere⟩⟩
        · have hbound := hlater hmem
          simp only [List.length_nil] at hcolumn
          omega
      | cons char front =>
        obtain rfl | hmem := List.mem_cons.mp htoken
        · simp only [List.length_cons] at hcolumn
          omega
        have hbound := hlater hmem
        -- The first token ends before the minus sign.
        obtain ⟨more, hmore, rfl⟩ : ∃ more, char :: front = first.text.toList ++ more ∧
            rest = more ++ '-' :: after := by
          obtain ⟨more, hfront, hrest⟩ | ⟨more, htext, hminuses⟩ :=
            List.append_eq_append_iff.mp hstands.split.symm
          · exact ⟨more, hfront, hrest⟩
          · have hlength := congrArg List.length htext
            simp only [List.length_append, List.length_cons] at hcolumn hlength
            obtain rfl := List.eq_nil_of_length_eq_zero (by omega : more.length = 0)
            exact ⟨[], by rw [htext, List.append_nil, List.append_nil], hminuses.symm⟩
        have hlength := congrArg List.length hmore
        simp only [List.length_append, List.length_cons] at hlength hcolumn hbudget hlarger
        have hagain : Stands previous (later + blanks.length)
            ⟨first.kind, first.text, later + blanks.length⟩ (char :: front ++ '-' :: ' ' :: after)
            (more ++ '-' :: ' ' :: after) :=
          ⟨rfl, by rw [hmore, List.append_assoc], hstands.lexeme.before_minus _⟩
        rw [scanFrom_stands larger hagain]
        obtain ⟨other, hopposite, ⟨hoperand, hhere⟩ | hahead⟩ :=
          ih hmem (by rw [Token.stop, ← String.length_toList]; omega)
            (by simp only [List.length_append, List.length_cons]; omega)
            (by simp only [List.length_append, List.length_cons]; omega :
              (more ++ '-' :: ' ' :: after).length < larger)
            (Token.stop ⟨first.kind, first.text, later + blanks.length⟩)
        · exact ⟨other, hopposite, .inr (.next rfl hoperand hhere)⟩
        · exact ⟨other, hopposite, .inr (.later rfl hahead)⟩

/-- A number token that covers a minus sign starts with it. -/
theorem column_of_covers {before after : List Char} {budget : Nat} {token : Token}
    (htoken : token ∈ (scanFrom budget none 0 (before ++ '-' :: after)).tokens)
    (hkind : token.kind.IsNumber) (hcovers : token.Covers before.length) :
    token.column = before.length := by
  have hfinish : token.kind ≠ .finish := by
    intro hfinish
    rw [hfinish] at hkind
    exact hkind
  obtain ⟨place, front, rest, hchars, hcolumn, hlexeme⟩ :=
    exists_lexeme_of_scanFrom htoken hfinish
  obtain ⟨hlow, hhigh⟩ := hcovers
  rw [Token.stop, ← String.length_toList] at hhigh
  have hminus : token.text.toList[before.length - token.column]? = some '-' := by
    have hplace : (before ++ '-' :: after)[before.length]? = some '-' := by simp
    rwa [hchars, List.getElem?_append_right (by omega), List.getElem?_append_left (by omega),
      show before.length - front.length = before.length - token.column by omega] at hplace
  obtain ⟨content, hstring⟩ | ⟨hoffset, -⟩ := hlexeme.minus hminus
  · rw [hstring] at hkind
    exact hkind.elim
  · omega

/-- The tokens of a text and those of the text with a blank after the minus sign of a number. -/
theorem sign_ofText {before after : List Char} {text spaced : String} {token : Token}
    (htext : text.toList = before ++ '-' :: after)
    (hspaced : spaced.toList = before ++ '-' :: ' ' :: after)
    (htoken : token ∈ (ofText text).tokens) (hkind : token.kind.IsNumber)
    (hcovers : token.Covers before.length) :
    ∃ other, token.kind.IsOpposite other ∧
      (SignHere token.kind other (ofText text).tokens (ofText spaced).tokens ∨
        SignAhead token.kind other (ofText text).tokens (ofText spaced).tokens) := by
  simp only [ofText, ← String.length_toList, htext, hspaced] at htoken ⊢
  have hcolumn := column_of_covers htoken hkind hcovers
  obtain ⟨other, hopposite, hsign⟩ := sign_scanFrom htoken hkind (by rw [hcolumn, Nat.zero_add])
    (Nat.lt_succ_self _) (Nat.lt_succ_self (before ++ '-' :: ' ' :: after).length) 0
  exact ⟨other, hopposite, hsign.imp_left And.right⟩

end Scan

end Patchwork
