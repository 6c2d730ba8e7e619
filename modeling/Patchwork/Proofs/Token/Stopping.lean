import Patchwork.Proofs.Token.Numbers
import Patchwork.Proofs.Token.Spacing

/-!
# Where scanning stops

A text that is not scanned to its end is cut as far as it goes: the tokens in front of the
place where scanning stops are those of the text cut off there, and no token stands at the
place itself.  The place is reported unless it is a run of digits that is no number.
-/

namespace Patchwork

namespace Scan

section

variable {previous last : Option TokenKind} {kind : TokenKind} {column : Nat}
  {chars rest later place : List Char} {tokens : List Token} {fault : ScanFault}

/-! ## Texts that are cut off -/

theorem startsWithDigit_of_append (hnot : startsWithDigit (rest ++ later) = false) :
    startsWithDigit rest = false := by
  cases rest with
  | nil => rfl
  | cons char rest => exact hnot

theorem startsWithFraction_of_append (hnot : startsWithFraction (rest ++ later) = false) :
    startsWithFraction rest = false := by
  cases rest with
  | nil => rfl
  | cons char rest =>
    simp only [startsWithFraction, List.cons_append] at hnot ⊢
    split at hnot
    · next others hothers =>
      obtain ⟨rfl, rfl⟩ := List.cons.inj hothers
      exact startsWithDigit_of_append hnot
    · next hpoint =>
      split
      · next others hothers =>
        obtain ⟨rfl, rfl⟩ := List.cons.inj hothers
        exact absurd rfl (hpoint _)
      · rfl

/-- A lexeme is still one when what follows it is cut off. -/
theorem Lexeme.of_append (hlexeme : Lexeme previous kind chars (rest ++ later)) :
    Lexeme previous kind chars rest := by
  cases hlexeme with
  | atSign => exact .atSign
  | integer hsign hbody hvalue =>
    cases hbody with
    | whole hdigits hend hfraction =>
      exact .integer hsign (.whole hdigits (startsWithDigit_of_append hend)
        (startsWithFraction_of_append hfraction)) hvalue
  | decimal hsign hbody hvalue =>
    cases hbody with
    | pointed hwhole hdigits hend =>
      exact .decimal hsign (.pointed hwhole hdigits (startsWithDigit_of_append hend)) hvalue
  | word hfirst hothers hend =>
    refine .word hfirst hothers fun char hchar => hend char ?_
    cases rest with
    | nil => cases hchar
    | cons next others => exact hchar
  | string hcontent => exact .string hcontent
  | pairOperator hpair => exact .pairOperator hpair
  | singleOperator hsingle hpair hminus =>
    refine .singleOperator hsingle ?_ fun hchar => ?_
    · cases rest with
      | nil => simp [pairOperators]
      | cons next others => exact hpair
    · have hnot := hminus hchar
      rw [Bool.and_eq_false_iff] at hnot ⊢
      exact hnot.imp_left startsWithDigit_of_append
  | punctuation hkind => exact .punctuation hkind

/-! ## Places that are reached -/

/-- From a place in a line, where `previous` is the kind of the token before, lexemes and
blanks lead to another place. -/
inductive Leads : Option TokenKind → List Char → Option TokenKind → List Char → Prop
  | here (previous : Option TokenKind) (place : List Char) : Leads previous place previous place
  | blank {previous last : Option TokenKind} {char : Char} {chars place : List Char}
    (hchar : Text.isBlank char = true) (hrest : Leads previous chars last place) :
    Leads previous (char :: chars) last place
  | lexeme {previous last : Option TokenKind} {kind : TokenKind} {chars rest place : List Char}
    (hlexeme : Lexeme previous kind chars rest) (hrest : Leads (some kind) rest last place) :
    Leads previous (chars ++ rest) last place

theorem Leads.blanks {blanks : List Char} (hblanks : ∀ char ∈ blanks, Text.isBlank char = true)
    (hrest : Leads previous chars last place) : Leads previous (blanks ++ chars) last place := by
  induction blanks with
  | nil => exact hrest
  | cons char blanks ih =>
    exact .blank (hblanks char List.mem_cons_self)
      (ih fun other hother => hblanks other (List.mem_cons_of_mem _ hother))

theorem Leads.exists_spells (hleads : Leads previous chars last place) :
    ∃ words, Spells previous chars words last place := by
  induction hleads with
  | here previous place => exact ⟨[], .done previous place⟩
  | blank hchar _ ih =>
    obtain ⟨words, hspells⟩ := ih
    exact ⟨words, .blank hchar hspells⟩
  | lexeme hlexeme _ ih =>
    obtain ⟨words, hspells⟩ := ih
    exact ⟨_, .lexeme String.toList_ofList hlexeme hspells⟩

/-- The kind of the token before a place that some tokens lead to. -/
def kindBefore (previous : Option TokenKind) (tokens : List Token) : Option TokenKind :=
  (tokens.getLast?.map Token.kind).or previous

theorem kindBefore_cons (previous : Option TokenKind) (token : Token) (tokens : List Token) :
    kindBefore previous (token :: tokens) = kindBefore (some token.kind) tokens := by
  rw [kindBefore, kindBefore, List.getLast?_cons]
  cases tokens.getLast? <;> simp

/-- A text is cut up to a place where a step fails. -/
structure Halts (previous : Option TokenKind) (column : Nat) (front place : List Char)
    (tokens : List Token) (fault : ScanFault) : Prop where
  cut : Cut previous column front (tokens ++ [⟨.finish, "", column + front.length⟩])
  leads : Leads previous (front ++ place) (kindBefore previous tokens) place
  notBlank : ∀ char ∈ place.head?, Text.isBlank char = false
  step : step (kindBefore previous tokens) (column + front.length) place = .error fault

theorem Halts.token {blanks front : List Char} {token : Token}
    (hhalts : Halts (some token.kind) token.stop front place tokens fault)
    (hblanks : ∀ char ∈ blanks, Text.isBlank char = true)
    (hstands : Stands previous (column + blanks.length) token chars (front ++ place)) :
    Halts previous column (blanks ++ (token.text.toList ++ front)) place (token :: tokens)
      fault := by
  have hcolumn : column + (blanks ++ (token.text.toList ++ front)).length =
      token.stop + front.length := by
    rw [Token.stop, hstands.column]
    simp only [List.length_append, String.length_toList]
    omega
  have hleads : Leads previous ((blanks ++ (token.text.toList ++ front)) ++ place)
      (kindBefore (some token.kind) tokens) place := by
    rw [List.append_assoc, List.append_assoc]
    exact .blanks hblanks (.lexeme hstands.lexeme hhalts.leads)
  refine ⟨?_, kindBefore_cons previous token tokens ▸ hleads, hhalts.notBlank, ?_⟩
  · rw [hcolumn]
    exact .token hblanks ⟨hstands.column, rfl, hstands.lexeme.of_append⟩ hhalts.cut
  · rw [hcolumn, kindBefore_cons]
    exact hhalts.step

/-- A scan with a fault cuts the characters as far as it goes. -/
theorem halts_of_scanFrom {budget : Nat} (hbudget : chars.length < budget)
    (hscan : scanFrom budget previous column chars = ⟨tokens, some fault⟩) :
    ∃ front place, chars = front ++ place ∧ Halts previous column front place tokens fault := by
  induction budget generalizing previous column chars tokens with
  | zero => omega
  | succ budget ih =>
    have hscanned := scanned budget previous column chars
    rw [hscan] at hscanned
    generalize htokens : (⟨tokens, some fault⟩ : Scan) = scan at hscanned
    cases hscanned with
    | finish => cases htokens
    | @stopped blanks others first _ hblanks hfirst hstep =>
      cases htokens
      refine ⟨blanks, first :: others, rfl, .finish hblanks, .blanks hblanks (.here _ _), ?_, hstep⟩
      rintro _ ⟨⟩
      exact hfirst
    | token hblanks hstands =>
      obtain ⟨rfl, hfault⟩ := Scan.mk.inj htokens
      have hshorter := hstands.length_lt
      rw [List.length_append] at hbudget
      obtain ⟨front, place, rfl, hhalts⟩ := ih (by omega) (congrArg (Scan.mk _) hfault.symm)
      refine ⟨_, place, ?_, hhalts.token hblanks hstands⟩
      rw [hstands.split]
      simp only [List.append_assoc]

/-! ## Why no token stands at a place -/

/-- A run of digits where a number may stand, one of which has no place in a numeral. -/
def FalseNumber (previous : Option TokenKind) (place : List Char) : Prop :=
  ∃ sign body hasPoint rest, place = sign ++ body ++ rest ∧ SignAfter previous sign ∧
    NumberBody body hasPoint rest ∧ ¬ AllDecimal body

/-- Why no token starts with the first character of a place. -/
inductive Refuses (previous : Option TokenKind) (column : Nat) : List Char → ScanFault → Prop
  | falseNumber {place : List Char} {fault : ScanFault} (hplace : FalseNumber previous place)
    (hfault : fault.column? = none) : Refuses previous column place fault
  | openString {rest : List Char} (hrest : '"' ∉ rest) :
    Refuses previous column ('"' :: rest) (.openString column)
  | unexpected (char : Char) (rest : List Char) :
    Refuses previous column (char :: rest) (.unexpected char column)

theorem not_lexeme_of_step (hstep : step previous column (chars ++ rest) = .error fault) :
    ¬ Lexeme previous kind chars rest := by
  intro hlexeme
  rw [hlexeme.step_eq] at hstep
  cases hstep

theorem FalseNumber.exists_first (hplace : FalseNumber previous place) :
    ∃ first others, place = first :: others ∧ Text.isBlank first = false := by
  obtain ⟨sign, body, hasPoint, rest, rfl, rfl | ⟨rfl, -⟩, hbody, -⟩ := hplace
  · have hdigit := hbody.startsWithDigit
    rw [List.nil_append]
    cases hchars : body ++ rest with
    | nil =>
      rw [hchars] at hdigit
      cases hdigit
    | cons first others =>
      rw [hchars] at hdigit
      exact ⟨first, others, rfl, Text.isBlank_eq_false_of_digit hdigit⟩
  · exact ⟨'-', body ++ rest, rfl, by decide⟩

/-- A number that is none is not reported with its place. -/
theorem FalseNumber.step_eq (hplace : FalseNumber previous place) (column : Nat) :
    ∃ fault, step previous column place = .error fault ∧ fault.column? = none := by
  obtain ⟨sign, body, hasPoint, rest, rfl, hsign, hbody, hdecimal⟩ := hplace
  rw [step_number hsign hbody, number, numberBody_append hbody]
  cases hasPoint with
  | true =>
    rw [← isSome_float?_iff hsign hbody, Option.not_isSome_iff_eq_none] at hdecimal
    simp only [if_true, hdecimal]
    exact ⟨_, rfl, rfl⟩
  | false =>
    rw [← isSome_integer?_iff hsign hbody, Option.not_isSome_iff_eq_none] at hdecimal
    simp only [Bool.false_eq_true, if_false, hdecimal]
    exact ⟨_, rfl, rfl⟩

theorem refuses_of_number {sign : List Char} (hsign : SignAfter previous sign)
    (hdigit : startsWithDigit chars = true) (hnumber : number column sign chars = .error fault) :
    Refuses previous column (sign ++ chars) fault := by
  rcases hbody : numberBody chars with ⟨body, hasPoint, after⟩
  obtain ⟨rfl, hsplit⟩ := numberBody_of_eq hdigit hbody
  have hplace (hdecimal : ¬ AllDecimal body) : FalseNumber previous (sign ++ (body ++ after)) :=
    ⟨sign, body, hasPoint, after, (List.append_assoc ..).symm, hsign, hsplit, hdecimal⟩
  simp only [number, hbody] at hnumber
  cases hasPoint with
  | true =>
    simp only [if_true] at hnumber
    split at hnumber
    · cases hnumber
    · next hnone =>
      cases hnumber
      refine .falseNumber (hplace fun hdecimal => ?_) rfl
      rw [← isSome_float?_iff hsign hsplit, hnone] at hdecimal
      cases hdecimal
  | false =>
    simp only [Bool.false_eq_true, if_false] at hnumber
    split at hnumber
    · cases hnumber
    · next hnone =>
      cases hnumber
      refine .falseNumber (hplace fun hdecimal => ?_) rfl
      rw [← isSome_integer?_iff hsign hsplit, hnone] at hdecimal
      cases hdecimal

theorem refuses_of_string (hstring : string column chars = .error fault) :
    Refuses previous column ('"' :: chars) fault := by
  rw [string] at hstring
  split at hstring
  · cases hstring
  · next hbreak =>
    cases hstring
    refine .openString fun hquote => ?_
    obtain ⟨content, rest, rfl, hcontent⟩ := List.eq_append_cons_of_mem hquote
    rw [breakOn?_quote hcontent] at hbreak
    cases hbreak

theorem refuses_of_symbol {char : Char} (hsymbol : symbol column char chars = .error fault) :
    Refuses previous column (char :: chars) fault := by
  rw [symbol] at hsymbol
  split at hsymbol
  · cases hsymbol
  split at hsymbol
  · cases hsymbol
  split at hsymbol
  · cases hsymbol
  · cases hsymbol
    exact .unexpected char chars

theorem refuses_of_step (hstep : step previous column place = .error fault) :
    Refuses previous column place fault := by
  cases place with
  | nil => cases hstep
  | cons char rest =>
    rw [step] at hstep
    split at hstep
    · cases hstep
    split at hstep
    · next hdigit => exact refuses_of_number (.inl rfl) hdigit hstep
    split at hstep
    · next hsigned =>
      simp only [Bool.and_eq_true, beq_iff_eq] at hsigned
      obtain ⟨⟨rfl, hdigit⟩, hoperand⟩ := hsigned
      exact refuses_of_number (.inr ⟨rfl, hoperand⟩) hdigit hstep
    split at hstep
    · cases hstep
    split at hstep
    · next hquote =>
      obtain rfl := beq_iff_eq.mp hquote
      exact refuses_of_string hstep
    · exact refuses_of_symbol hstep

end

/-! ## Texts -/

/-- Scanning stops at a column of a text: no token stands there, though the characters before
it are blanks or belong to tokens, which are those of the text that is cut off there. -/
structure StopsAt (source : List Char) (tokens : List Token) (fault : ScanFault)
    (column : Nat) : Prop where
  reason : fault = .openString column ∧ source[column]? = some '"' ∧
      '"' ∉ source.drop (column + 1) ∨
    ∃ char, fault = .unexpected char column ∧ source[column]? = some char
  notBlank : ∀ char ∈ source[column]?, Text.isBlank char = false
  noLexeme : ∀ kind chars rest, source.drop column = chars ++ rest →
    ¬ Lexeme (kindBefore none tokens) kind chars rest
  first : ∀ position char, position < column → source[position]? = some char →
    Text.isBlank char = true ∨ ∃ token ∈ tokens, token.Covers position
  tokens : complete (String.ofList (source.take column)) =
    .ok (tokens ++ [⟨.finish, "", column⟩])

/-- Somewhere in a text a number should stand, and one of its digits is no decimal one. -/
def HasFalseNumber (source : List Char) : Prop :=
  ∃ last place, Leads none source last place ∧ FalseNumber last place

theorem Halts.stopsAt {front place : List Char} {tokens : List Token} {fault : ScanFault}
    (hhalts : Halts none 0 front place tokens fault) {column : Nat}
    (hcolumn : fault.column? = some column) : StopsAt (front ++ place) tokens fault column := by
  have hplace : (front ++ place)[front.length]? = place.head? := by
    rw [List.getElem?_append_right (Nat.le_refl _), Nat.sub_self, List.head?_eq_getElem?]
  have hreason : column = front.length ∧
      (fault = .openString column ∧ place.head? = some '"' ∧ '"' ∉ place.drop 1 ∨
        ∃ char, fault = .unexpected char column ∧ place.head? = some char) := by
    have hrefuses := refuses_of_step hhalts.step
    rw [Nat.zero_add] at hrefuses
    cases hrefuses with
    | falseNumber _ hfault =>
      rw [hfault] at hcolumn
      cases hcolumn
    | openString hrest =>
      cases hcolumn
      exact ⟨rfl, .inl ⟨rfl, rfl, hrest⟩⟩
    | unexpected char rest =>
      cases hcolumn
      exact ⟨rfl, .inr ⟨char, rfl, rfl⟩⟩
  obtain ⟨rfl, hreason⟩ := hreason
  have hcut := hhalts.cut
  rw [Nat.zero_add] at hcut
  refine ⟨?_, ?_, ?_, ?_, ?_⟩
  · rw [hplace, List.drop_append, List.drop_of_length_le (Nat.le_succ _), List.nil_append,
      Nat.add_sub_cancel_left]
    exact hreason
  · rw [hplace]
    exact hhalts.notBlank
  · intro kind chars rest hsplit
    rw [List.drop_left] at hsplit
    exact not_lexeme_of_step (hsplit ▸ hhalts.step)
  · intro position char hposition hchar
    rw [List.getElem?_append_left hposition] at hchar
    refine (hcut.cover hchar).imp_right fun ⟨token, htoken, hcovers⟩ => ?_
    rw [Nat.zero_add] at hcovers
    obtain htoken | hfinish := List.mem_append.mp htoken
    · exact ⟨token, htoken, hcovers⟩
    · cases List.mem_singleton.mp hfinish
      exact absurd hcovers.1 (Nat.not_le.mpr hposition)
  · rw [List.take_left]
    exact complete_of_cut hcut

theorem HasFalseNumber.exists_fault {text : String} (hfalse : HasFalseNumber text.toList) :
    ∃ fault, (ofText text).fault? = some fault ∧ fault.column? = none := by
  obtain ⟨last, place, hleads, hplace⟩ := hfalse
  obtain ⟨words, hspells⟩ := hleads.exists_spells
  have hbudget : words.length ≤ text.length := by
    have hlength := hspells.length_words_le
    rw [String.length_toList] at hlength
    omega
  obtain ⟨tokens, column, -, hscan⟩ :=
    scanFrom_of_spells hspells (Nat.le_succ_of_le hbudget) 0
  have hleft : text.length.succ - words.length = text.length - words.length + 1 := by omega
  obtain ⟨fault, hstep, hfault⟩ := hplace.step_eq column
  refine ⟨fault, ?_, hfault⟩
  obtain ⟨first, others, rfl, hfirst⟩ := hplace.exists_first
  rw [ofText, hscan, hleft, scanFrom_step _ hfirst, hstep]

example : ofText "1 + \"2" =
    ⟨[⟨.int 1, "1", 0⟩, ⟨.operator, "+", 2⟩], some (.openString 4)⟩ := by rfl

end Scan

end Patchwork
