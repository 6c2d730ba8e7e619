import Mathlib.Tactic.SplitIfs
import Patchwork.Proofs.Text.Numerals
import Patchwork.Token.Scan

/-!
# Lexemes

What each kind of token looks like, said without the scanner: the characters of the
token, the token before it and the characters after it decide.  A step of the scanner
gives a token exactly where one stands, so what is true of all lexemes is true of all
tokens that are scanned.
-/

namespace Patchwork

namespace Scan

/-! ## Runs of characters of one class -/

section

variable {accepts : Char → Bool} {front rest chars : List Char}

theorem takeWhile_append_of_ends (hfront : ∀ char ∈ front, accepts char = true)
    (hend : ∀ char ∈ rest.head?, accepts char = false) :
    (front ++ rest).takeWhile accepts = front := by
  rw [List.takeWhile_append_of_pos hfront]
  cases rest with
  | nil => simp
  | cons char rest => simp [hend char rfl]

theorem dropWhile_append_of_ends (hfront : ∀ char ∈ front, accepts char = true)
    (hend : ∀ char ∈ rest.head?, accepts char = false) :
    (front ++ rest).dropWhile accepts = rest := by
  rw [List.dropWhile_append_of_pos hfront]
  cases rest with
  | nil => simp
  | cons char rest => simp [hend char rfl]

theorem mem_takeWhile (chars : List Char) :
    ∀ char ∈ chars.takeWhile accepts, accepts char = true :=
  fun char hchar => List.all_eq_true.mp List.all_takeWhile char hchar

theorem head?_dropWhile (chars : List Char) :
    ∀ char ∈ (chars.dropWhile accepts).head?, accepts char = false := by
  intro char hchar
  have hnot := List.head?_dropWhile_not accepts chars
  rw [Option.mem_def.mp hchar] at hnot
  simpa using hnot

/-- A text in two parts, split at a character that the first part lacks. -/
theorem exists_of_append_eq {left right behind : List Char} {mark : Char} (hmark : mark ∉ left)
    (hsplit : left ++ right = front ++ mark :: behind) :
    ∃ more, front = left ++ more ∧ right = more ++ mark :: behind := by
  obtain ⟨more, hfront, hright⟩ | ⟨more, hleft, hbehind⟩ := List.append_eq_append_iff.mp hsplit
  · exact ⟨more, hfront, hright⟩
  · cases more with
    | nil => exact ⟨[], by rw [hleft, List.append_nil, List.append_nil], hbehind.symm⟩
    | cons first more =>
      obtain ⟨rfl, -⟩ := List.cons.inj hbehind
      exact absurd (hleft ▸ List.mem_append_right _ List.mem_cons_self) hmark

end

/-! ## Digits -/

/-- One digit or more, and nothing else. -/
structure Digits (chars : List Char) : Prop where
  some : chars ≠ []
  all : ∀ char ∈ chars, Text.isDigit char = true

/-- Whether the characters start with a point and a digit. -/
def startsWithFraction : List Char → Bool
  | '.' :: rest => startsWithDigit rest
  | _ => false

theorem startsWithDigit_eq_false {chars : List Char} :
    startsWithDigit chars = false ↔ ∀ char ∈ chars.head?, Text.isDigit char = false := by
  cases chars <;> simp [startsWithDigit]

theorem Digits.startsWithDigit {digits : List Char} (hdigits : Digits digits)
    (rest : List Char) : startsWithDigit (digits ++ rest) = true := by
  obtain ⟨digit, others, rfl⟩ := List.exists_cons_of_ne_nil hdigits.some
  exact hdigits.all digit List.mem_cons_self

theorem digits_takeWhile {chars : List Char} (hdigit : Scan.startsWithDigit chars = true) :
    Digits (chars.takeWhile Text.isDigit) := by
  refine ⟨?_, mem_takeWhile chars⟩
  cases chars with
  | nil => simp [Scan.startsWithDigit] at hdigit
  | cons char rest => simp [show Text.isDigit char = true from hdigit]

theorem startsWithDigit_dropWhile (chars : List Char) :
    Scan.startsWithDigit (chars.dropWhile Text.isDigit) = false :=
  startsWithDigit_eq_false.mpr (head?_dropWhile chars)

/-- How the characters of a number without its sign are told from those after it. -/
inductive NumberBody : List Char → Bool → List Char → Prop
  | whole {digits rest : List Char} (hdigits : Digits digits)
    (hend : Scan.startsWithDigit rest = false) (hfraction : startsWithFraction rest = false) :
    NumberBody digits false rest
  | pointed {whole fraction rest : List Char} (hwhole : Digits whole) (hdigits : Digits fraction)
    (hend : Scan.startsWithDigit rest = false) :
    NumberBody (whole ++ '.' :: fraction) true rest

theorem NumberBody.startsWithDigit {body rest : List Char} {hasPoint : Bool}
    (hbody : NumberBody body hasPoint rest) : Scan.startsWithDigit (body ++ rest) = true := by
  cases hbody with
  | whole hdigits => exact hdigits.startsWithDigit rest
  | pointed hwhole =>
    rw [List.append_assoc]
    exact hwhole.startsWithDigit _

theorem NumberBody.not_mem {body rest : List Char} {hasPoint : Bool} {char : Char}
    (hdigit : Text.isDigit char = false) (hpoint : char ≠ '.')
    (hbody : NumberBody body hasPoint rest) : char ∉ body := by
  have hnot : ∀ {digits : List Char}, Digits digits → char ∉ digits := fun hdigits hmem =>
    Bool.noConfusion (hdigit.symm.trans (hdigits.all char hmem))
  cases hbody with
  | whole hdigits => exact hnot hdigits
  | pointed hwhole hdigits => simp [hnot hwhole, hnot hdigits, hpoint]

theorem NumberBody.not_mem_minus {body rest : List Char} {hasPoint : Bool}
    (hbody : NumberBody body hasPoint rest) : '-' ∉ body :=
  hbody.not_mem (by decide) (by decide)

theorem numberBody_append {body rest : List Char} {hasPoint : Bool}
    (hbody : NumberBody body hasPoint rest) :
    numberBody (body ++ rest) = (body, hasPoint, rest) := by
  have hpoint : ∀ after : List Char, ∀ char ∈ ('.' :: after).head?, Text.isDigit char = false := by
    rintro after char ⟨⟩
    decide
  cases hbody with
  | whole hdigits hend hfraction =>
    have hends := startsWithDigit_eq_false.mp hend
    simp only [numberBody, takeWhile_append_of_ends hdigits.all hends,
      dropWhile_append_of_ends hdigits.all hends]
    split
    · rename_i after
      rw [if_neg (by simpa [startsWithFraction] using hfraction)]
    · rfl
  | @pointed whole fraction rest hwhole hdigits hend =>
    have hends := startsWithDigit_eq_false.mp hend
    have hassoc : whole ++ '.' :: fraction ++ rest = whole ++ '.' :: (fraction ++ rest) := by simp
    simp only [numberBody, hassoc, takeWhile_append_of_ends hwhole.all (hpoint _),
      dropWhile_append_of_ends hwhole.all (hpoint _), hdigits.startsWithDigit rest, if_true,
      takeWhile_append_of_ends hdigits.all hends, dropWhile_append_of_ends hdigits.all hends]

theorem numberBody_of_eq {chars body rest : List Char} {hasPoint : Bool}
    (hdigit : Scan.startsWithDigit chars = true)
    (hbody : numberBody chars = (body, hasPoint, rest)) :
    chars = body ++ rest ∧ NumberBody body hasPoint rest := by
  have hsplit := List.takeWhile_append_dropWhile (p := Text.isDigit) (l := chars)
  have hwhole := digits_takeWhile hdigit
  have hend := startsWithDigit_dropWhile chars
  rw [numberBody] at hbody
  split at hbody
  · rename_i after hafter
    rw [hafter] at hsplit hend
    split at hbody
    · rename_i hfraction
      cases hbody
      refine ⟨?_, .pointed hwhole (digits_takeWhile hfraction) (startsWithDigit_dropWhile after)⟩
      rw [List.append_assoc, List.cons_append, List.takeWhile_append_dropWhile, hsplit]
    · rename_i hfraction
      cases hbody
      exact ⟨hsplit.symm, .whole hwhole hend (by simpa [startsWithFraction] using hfraction)⟩
  · rename_i hpoint
    cases hbody
    refine ⟨hsplit.symm, .whole hwhole hend ?_⟩
    cases hrest : chars.dropWhile Text.isDigit with
    | nil => rfl
    | cons char after =>
      rw [startsWithFraction]
      intro _ hpointed
      exact hpoint _ (hrest.trans hpointed)

/-! ## What stands where -/

/-- A sign may stand in front of a number where an operand may start. -/
def SignAfter (previous : Option TokenKind) (sign : List Char) : Prop :=
  sign = [] ∨ sign = ['-'] ∧ operandMayStart previous = true

/-- After the token before, if there is one, a token of a kind is written with some
characters, and other characters follow it. -/
inductive Lexeme : Option TokenKind → TokenKind → List Char → List Char → Prop
  | atSign {previous : Option TokenKind} {rest : List Char} :
    Lexeme previous .atSign ['@'] rest
  | integer {previous : Option TokenKind} {sign digits rest : List Char} {value : Int}
    (hsign : SignAfter previous sign) (hbody : NumberBody digits false rest)
    (hvalue : Numeral.integer? (String.ofList (sign ++ digits)) = some value) :
    Lexeme previous (.int value) (sign ++ digits) rest
  | decimal {previous : Option TokenKind} {sign digits rest : List Char} {value : Binary64}
    (hsign : SignAfter previous sign) (hbody : NumberBody digits true rest)
    (hvalue : Numeral.float? (String.ofList (sign ++ digits)) = some value) :
    Lexeme previous (.float value) (sign ++ digits) rest
  | word {previous : Option TokenKind} {first : Char} {others rest : List Char}
    (hfirst : Text.isLetter first = true)
    (hothers : ∀ char ∈ others, Text.isWord char = true)
    (hend : ∀ char ∈ rest.head?, Text.isWord char = false) :
    Lexeme previous (wordKind (String.ofList (first :: others))) (first :: others) rest
  | string {previous : Option TokenKind} {content rest : List Char} (hcontent : '"' ∉ content) :
    Lexeme previous (.string (String.ofList content)) ('"' :: (content ++ ['"'])) rest
  | pairOperator {previous : Option TokenKind} {first second : Char} {rest : List Char}
    (hpair : [first, second] ∈ pairOperators) :
    Lexeme previous .operator [first, second] rest
  | singleOperator {previous : Option TokenKind} {char : Char} {rest : List Char}
    (hsingle : char ∈ singleOperators) (hpair : char :: rest.take 1 ∉ pairOperators)
    (hminus : char = '-' →
      (Scan.startsWithDigit rest && operandMayStart previous) = false) :
    Lexeme previous .operator [char] rest
  | punctuation {previous : Option TokenKind} {char : Char} {kind : TokenKind}
    {rest : List Char} (hkind : punctuation? char = some kind) :
    Lexeme previous kind [char] rest

section

variable {previous : Option TokenKind} {char : Char} {rest : List Char} {token : Token}
  {column : Nat} {kind : TokenKind} {chars : List Char}

/-! ## A step gives a lexeme -/

/-- The token is at the column and in front of the rest of the characters, as a
lexeme. -/
structure Stands (previous : Option TokenKind) (column : Nat) (token : Token)
    (chars rest : List Char) : Prop where
  column : token.column = column
  split : chars = token.text.toList ++ rest
  lexeme : Lexeme previous token.kind token.text.toList rest

theorem stands_number {sign : List Char} (hsign : SignAfter previous sign)
    (hdigit : Scan.startsWithDigit chars = true)
    (hnumber : number column sign chars = .ok ⟨token, rest⟩) :
    Stands previous column token (sign ++ chars) rest := by
  rcases hbody : numberBody chars with ⟨body, hasPoint, after⟩
  obtain ⟨rfl, hsplit⟩ := numberBody_of_eq hdigit hbody
  simp only [number, hbody] at hnumber
  cases hasPoint with
  | true =>
    simp only [if_true] at hnumber
    split at hnumber
    · rename_i value hvalue
      cases hnumber
      exact ⟨rfl, by simp, String.toList_ofList ▸ .decimal hsign hsplit hvalue⟩
    · cases hnumber
  | false =>
    simp only [Bool.false_eq_true, if_false] at hnumber
    split at hnumber
    · rename_i value hvalue
      cases hnumber
      exact ⟨rfl, by simp, String.toList_ofList ▸ .integer hsign hsplit hvalue⟩
    · cases hnumber

theorem stands_word (hfirst : Text.isLetter char = true) :
    Stands previous column (Scan.word column (char :: chars)).token (char :: chars)
      (Scan.word column (char :: chars)).rest := by
  have hword : Text.isWord char = true :=
    Text.isWord_of_isAlphanumeric (Text.isAlphanumeric_of_isLetter hfirst)
  have htake : (char :: chars).takeWhile Text.isWord = char :: chars.takeWhile Text.isWord :=
    List.takeWhile_cons_of_pos hword
  refine ⟨rfl, ?_, ?_⟩
  · simp only [Scan.word, String.toList_ofList, List.takeWhile_append_dropWhile]
  · simp only [Scan.word, htake, String.toList_ofList]
    exact .word hfirst (mem_takeWhile chars) (head?_dropWhile (char :: chars))

theorem breakOn?_quote {content : List Char} (hcontent : '"' ∉ content) (rest : List Char) :
    Text.breakOn? ['"'] (content ++ '"' :: rest) = some (content, rest) := by
  have hfirst : ¬ ['"'] <:+: content ++ ['"'].dropLast := by
    intro hwithin
    exact hcontent (by simpa using hwithin.subset List.mem_cons_self)
  exact Text.breakOn?_of_first hfirst rest

theorem not_mem_of_breakOn? {quote : Char} {content : List Char}
    (hbreak : Text.breakOn? [quote] chars = some (content, rest)) : quote ∉ content := by
  induction chars generalizing content with
  | nil => simp [Text.breakOn?] at hbreak
  | cons first others ih =>
    rw [Text.breakOn?] at hbreak
    split at hbreak
    · cases hbreak
      exact List.not_mem_nil
    · rename_i hfirst
      obtain ⟨⟨before, after⟩, hothers, hsplit⟩ := Option.map_eq_some_iff.mp hbreak
      cases hsplit
      have hne : quote ≠ first := by
        rintro rfl
        exact hfirst (by simp)
      simp [hne, ih hothers]

theorem stands_string (hstring : string column chars = .ok ⟨token, rest⟩) :
    Stands previous column token ('"' :: chars) rest := by
  rw [string] at hstring
  split at hstring
  · rename_i content after hbreak
    cases hstring
    refine ⟨rfl, ?_, String.toList_ofList ▸ .string (not_mem_of_breakOn? hbreak)⟩
    rw [Text.eq_append_of_breakOn? hbreak]
    simp
  · cases hstring

theorem stands_symbol
    (hminus : char = '-' → (Scan.startsWithDigit chars && operandMayStart previous) = false)
    (hsymbol : symbol column char chars = .ok ⟨token, rest⟩) :
    Stands previous column token (char :: chars) rest := by
  rw [symbol] at hsymbol
  split at hsymbol
  · rename_i hpair
    cases hsymbol
    rw [List.contains_iff_mem] at hpair
    cases chars with
    | nil => exact absurd hpair (by simp [pairOperators])
    | cons second others =>
      exact ⟨rfl, by simp, String.toList_ofList ▸ .pairOperator hpair⟩
  · rename_i hpair
    rw [List.contains_iff_mem] at hpair
    split at hsymbol
    · rename_i hsingle
      cases hsymbol
      exact ⟨rfl, by simp, String.toList_singleton char ▸
        .singleOperator (List.contains_iff_mem.mp hsingle) hpair hminus⟩
    · split at hsymbol
      · rename_i kind hkind
        cases hsymbol
        exact ⟨rfl, by simp, String.toList_singleton char ▸ .punctuation hkind⟩
      · cases hsymbol

/-- The token a step gives stands where the step was made. -/
theorem stands_of_step (hstep : step previous column (char :: chars) = .ok ⟨token, rest⟩) :
    Stands previous column token (char :: chars) rest := by
  rw [step] at hstep
  split at hstep
  · rename_i hat
    cases hstep
    obtain rfl := beq_iff_eq.mp hat
    exact ⟨rfl, by simp, String.toList_singleton '@' ▸ .atSign⟩
  split at hstep
  · rename_i hdigit
    exact stands_number (Or.inl rfl) hdigit hstep
  split at hstep
  · rename_i hsigned
    simp only [Bool.and_eq_true, beq_iff_eq] at hsigned
    obtain ⟨⟨rfl, hdigit⟩, hoperand⟩ := hsigned
    exact stands_number (Or.inr ⟨rfl, hoperand⟩) hdigit hstep
  rename_i hsigned
  split at hstep
  · rename_i hletter
    cases hstep
    exact stands_word hletter
  split at hstep
  · rename_i hquote
    obtain rfl := beq_iff_eq.mp hquote
    exact stands_string hstep
  · refine stands_symbol ?_ hstep
    rintro rfl
    simpa using hsigned

/-! ## A lexeme is given by a step -/

/-- A character no blank, name, number, string or command starts with. -/
structure IsSymbol (char : Char) : Prop where
  notAt : char ≠ '@'
  notQuote : char ≠ '"'
  notDigit : Text.isDigit char = false
  notLetter : Text.isLetter char = false
  notBlank : Text.isBlank char = false

/-- The characters of punctuation and operators. -/
def symbols : List Char :=
  ['(', ')', '[', ']', ',', '=', '&', '|', '+', '-', '*', '/', '%', '<', '>', '!']

theorem isSymbol_of_mem_symbols (hchar : char ∈ symbols) : IsSymbol char := by
  have hall : (symbols.all fun symbol => symbol != '@' && symbol != '"' &&
      !Text.isDigit symbol && !Text.isLetter symbol && !Text.isBlank symbol) = true := by
    decide
  have hchar := List.all_eq_true.mp hall char hchar
  simp only [Bool.and_eq_true, bne_iff_ne, Bool.not_eq_true'] at hchar
  obtain ⟨⟨⟨⟨hat, hquote⟩, hdigit⟩, hletter⟩, hblank⟩ := hchar
  exact ⟨hat, hquote, hdigit, hletter, hblank⟩

theorem mem_symbols_of_pairOperator {second : Char} (hpair : [char, second] ∈ pairOperators) :
    char ∈ symbols ∧ Text.isDigit second = false := by
  have hall : (pairOperators.all fun operator => operator.head?.all symbols.contains &&
      operator[1]?.all fun mark => !Text.isDigit mark) = true := by
    decide
  obtain ⟨hfirst, hsecond⟩ := Bool.and_eq_true_iff.mp (List.all_eq_true.mp hall _ hpair)
  exact ⟨List.contains_iff_mem.mp hfirst, by simpa using hsecond⟩

theorem mem_symbols_of_singleOperator (hsingle : char ∈ singleOperators) : char ∈ symbols := by
  have hall : singleOperators.all symbols.contains = true := by decide
  exact List.contains_iff_mem.mp (List.all_eq_true.mp hall char hsingle)

/-- Punctuation is a symbol that is no operator and starts none. -/
theorem mem_symbols_of_punctuation (hkind : punctuation? char = some kind) :
    char ∈ symbols ∧ char ≠ '-' ∧ char ∉ singleOperators ∧
      ∀ second, char :: second ∉ pairOperators := by
  have hmem : char ∈ ['(', ')', '[', ']', ','] := by
    simp only [punctuation?] at hkind
    split at hkind <;> simp_all
  have hall : (['(', ')', '[', ']', ','].all fun mark => symbols.contains mark && mark != '-' &&
      !singleOperators.contains mark &&
        pairOperators.all fun operator => operator.head? != some mark) = true := by
    decide
  have hchar := List.all_eq_true.mp hall char hmem
  simp only [Bool.and_eq_true, List.contains_iff_mem, bne_iff_ne, Bool.not_eq_true'] at hchar
  obtain ⟨⟨⟨hsymbol, hminus⟩, hsingle⟩, hpair⟩ := hchar
  refine ⟨hsymbol, hminus, ?_, fun second hmem => ?_⟩
  · exact fun hmem => Bool.noConfusion (hsingle.symm.trans (List.contains_iff_mem.mpr hmem))
  · exact bne_iff_ne.mp (List.all_eq_true.mp hpair _ hmem) rfl

/-- A step at a symbol, unless a signed number starts there. -/
theorem step_of_mem_symbols (hchar : char ∈ symbols)
    (hsigned : char = '-' → (Scan.startsWithDigit rest && operandMayStart previous) = false) :
    step previous column (char :: rest) = symbol column char rest := by
  obtain ⟨hat, hquote, hdigit, hletter, -⟩ := isSymbol_of_mem_symbols hchar
  have hnumber : (char == '-' && Scan.startsWithDigit rest && operandMayStart previous) =
      false := by
    by_cases hhyphen : char = '-'
    · rw [Bool.and_assoc, hsigned hhyphen, Bool.and_false]
    · simp [hhyphen]
  rw [step, if_neg (by simp [hat]), if_neg (by simp [hdigit]), if_neg (by simp [hnumber]),
    if_neg (by simp [hletter]), if_neg (by simp [hquote])]

theorem step_number {sign digits : List Char} {hasPoint : Bool}
    (hsign : SignAfter previous sign) (hbody : NumberBody digits hasPoint rest) :
    step previous column (sign ++ digits ++ rest) = number column sign (digits ++ rest) := by
  have hdigit := hbody.startsWithDigit
  obtain rfl | ⟨rfl, hoperand⟩ := hsign
  · rw [List.nil_append]
    cases hchars : digits ++ rest with
    | nil => rw [hchars] at hdigit; cases hdigit
    | cons char others =>
      rw [hchars] at hdigit
      have hdigit : Text.isDigit char = true := hdigit
      have hat : char ≠ '@' := by
        rintro rfl
        exact absurd hdigit (by decide)
      rw [step, if_neg (by simp [hat]), if_pos hdigit]
  · rw [List.append_assoc, List.singleton_append, step, if_neg (by decide), if_neg (by decide),
      if_pos (by simp [hdigit, hoperand])]

/-- A step at a lexeme gives it as a token. -/
theorem Lexeme.step_eq (hlexeme : Lexeme previous kind chars rest) (column : Nat) :
    step previous column (chars ++ rest) = .ok ⟨⟨kind, String.ofList chars, column⟩, rest⟩ := by
  cases hlexeme with
  | atSign => rfl
  | integer hsign hbody hvalue =>
    rw [step_number hsign hbody, number, numberBody_append hbody]
    simp only [Bool.false_eq_true, if_false, hvalue]
  | decimal hsign hbody hvalue =>
    rw [step_number hsign hbody, number, numberBody_append hbody]
    simp only [if_true, hvalue]
  | @word first others _ hfirst hothers hend =>
    have hchars : ∀ char ∈ first :: others, Text.isWord char = true := by
      rintro char (_ | ⟨_, hchar⟩)
      · exact Text.isWord_of_isAlphanumeric (Text.isAlphanumeric_of_isLetter hfirst)
      · exact hothers char hchar
    have hat : first ≠ '@' := by
      rintro rfl
      exact absurd hfirst (by decide)
    have hhyphen : first ≠ '-' := by
      rintro rfl
      exact absurd hfirst (by decide)
    rw [List.cons_append, step, if_neg (by simp [hat]),
      if_neg (by simp [Text.isDigit_eq_false_of_isLetter hfirst]), if_neg (by simp [hhyphen]),
      if_pos hfirst, Scan.word, ← List.cons_append, takeWhile_append_of_ends hchars hend,
      dropWhile_append_of_ends hchars hend]
  | @string content _ hcontent =>
    have hdigit : Text.isDigit '"' = false := by decide
    have hletter : Text.isLetter '"' = false := by decide
    rw [List.cons_append, step, if_neg (by decide), if_neg (by simp [hdigit]), if_neg (by simp),
      if_neg (by simp [hletter]), if_pos (by decide), Scan.string, List.append_assoc,
      List.singleton_append, breakOn?_quote hcontent]
    rfl
  | @pairOperator first second _ hpair =>
    obtain ⟨hsymbol, hsecond⟩ := mem_symbols_of_pairOperator hpair
    have hdigit : Scan.startsWithDigit (second :: rest) = false := hsecond
    have hcontains : pairOperators.contains (first :: (second :: rest).take 1) = true :=
      List.contains_iff_mem.mpr hpair
    rw [List.cons_append, List.singleton_append,
      step_of_mem_symbols hsymbol (fun _ => by rw [hdigit]; rfl), symbol, if_pos hcontains]
    rfl
  | @singleOperator char _ hsingle hpair hminus =>
    rw [List.singleton_append,
      step_of_mem_symbols (mem_symbols_of_singleOperator hsingle) hminus, symbol,
      if_neg (fun hcontains => hpair (List.contains_iff_mem.mp hcontains)),
      if_pos (List.contains_iff_mem.mpr hsingle)]
    rfl
  | @punctuation char _ _ hkind =>
    obtain ⟨hsymbol, hminus, hsingle, hpair⟩ := mem_symbols_of_punctuation hkind
    rw [List.singleton_append, step_of_mem_symbols hsymbol fun hhyphen => absurd hhyphen hminus,
      symbol, if_neg (fun hcontains => hpair _ (List.contains_iff_mem.mp hcontains)),
      if_neg (fun hcontains => hsingle (List.contains_iff_mem.mp hcontains)), hkind]
    rfl

/-! ## What is true of all lexemes -/

theorem Lexeme.kind_ne_finish (hlexeme : Lexeme previous kind chars rest) : kind ≠ .finish := by
  cases hlexeme with
  | word =>
    rw [wordKind]
    split_ifs <;> simp
  | punctuation hkind =>
    rintro rfl
    simp only [punctuation?] at hkind
    split at hkind <;> cases hkind
  | _ => nofun

/-- No lexeme starts with a blank. -/
theorem Lexeme.head_not_blank (hlexeme : Lexeme previous kind chars rest) :
    ∀ char ∈ chars.head?, Text.isBlank char = false := by
  have hdigits : ∀ {digits : List Char}, Digits digits → ∀ more, ∀ char ∈ (digits ++ more).head?,
      Text.isBlank char = false := by
    intro digits hdigits more char hchar
    obtain ⟨digit, others, rfl⟩ := List.exists_cons_of_ne_nil hdigits.some
    cases hchar
    exact Text.isBlank_eq_false_of_digit (hdigits.all char List.mem_cons_self)
  have hnumber : ∀ {sign body : List Char} {hasPoint : Bool}, SignAfter previous sign →
      NumberBody body hasPoint rest → ∀ char ∈ (sign ++ body).head?, Text.isBlank char = false := by
    rintro sign body hasPoint (rfl | ⟨rfl, -⟩) hbody char hchar
    · cases hbody with
      | whole hwhole => exact hdigits hwhole [] char (by simpa using hchar)
      | pointed hwhole => exact hdigits hwhole _ char hchar
    · cases hchar
      decide
  have hsymbol : ∀ {char : Char} {others : List Char}, char ∈ symbols →
      ∀ first ∈ (char :: others).head?, Text.isBlank first = false := by
    rintro char others hchar first ⟨⟩
    exact (isSymbol_of_mem_symbols hchar).notBlank
  cases hlexeme with
  | integer hsign hbody | decimal hsign hbody => exact hnumber hsign hbody
  | word hfirst =>
    rintro char ⟨⟩
    exact Text.isBlank_eq_false_of_isLetter hfirst
  | atSign | string =>
    rintro char ⟨⟩
    decide
  | pairOperator hpair => exact hsymbol (mem_symbols_of_pairOperator hpair).1
  | singleOperator hsingle => exact hsymbol (mem_symbols_of_singleOperator hsingle)
  | punctuation hkind => exact hsymbol (mem_symbols_of_punctuation hkind).1

theorem Lexeme.chars_ne_nil (hlexeme : Lexeme previous kind chars rest) : chars ≠ [] := by
  cases hlexeme with
  | integer _ hbody =>
    cases hbody with
    | whole hdigits => simp [hdigits.some]
  | decimal _ hbody =>
    cases hbody with
    | pointed => simp
  | _ => simp

end

end Scan

/-- Whether the characters after a token could have been part of it: a character of a
name after a name or a truth value, a digit after a number, a point with a digit after
an integer, and the second character of an operator after the first one. -/
def Token.Extends (token : Token) (rest : List Char) : Prop :=
  match token.kind with
  | .identifier | .bool _ => ∃ char ∈ rest.head?, Text.isWord char = true
  | .int _ => Scan.startsWithDigit rest = true ∨ Scan.startsWithFraction rest = true
  | .float _ => Scan.startsWithDigit rest = true
  | .operator => token.text.length = 1 ∧ token.text.toList ++ rest.take 1 ∈ Scan.pairOperators
  | _ => False

/-- Whether a token is a number. -/
def TokenKind.IsNumber : TokenKind → Prop
  | .int _ | .float _ => True
  | _ => False

namespace Scan

section

variable {previous : Option TokenKind} {rest : List Char} {kind : TokenKind} {chars : List Char}

/-- A lexeme is as long as it can be. -/
theorem Lexeme.not_extends {token : Token}
    (hlexeme : Lexeme previous token.kind token.text.toList rest) : ¬ token.Extends rest := by
  obtain ⟨kind, text, column⟩ := token
  simp only at hlexeme
  rw [Token.Extends]
  simp only [← String.length_toList]
  generalize text.toList = chars at hlexeme
  cases hlexeme with
  | integer _ hbody =>
    cases hbody with
    | whole _ hend hfraction => simp [hend, hfraction]
  | decimal _ hbody =>
    cases hbody with
    | pointed _ _ hend => simp [hend]
  | word _ _ hend =>
    have hnot : ¬ ∃ char ∈ rest.head?, Text.isWord char = true := by
      rintro ⟨char, hchar, hword⟩
      rw [hend char hchar] at hword
      cases hword
    rw [wordKind]
    split_ifs <;> exact hnot
  | singleOperator _ hpair => exact fun hextends => hpair hextends.2
  | pairOperator => simp
  | punctuation hkind =>
    simp only [punctuation?] at hkind
    split at hkind <;> cases hkind <;> exact id
  | _ => exact id

/-- A lexeme that starts with a word character is a number or a word, and then all of the word. -/
theorem Lexeme.number_or_word (hlexeme : Lexeme previous kind chars rest) {name more : List Char}
    (hname : name ≠ []) (hword : ∀ char ∈ name, Text.isWord char = true)
    (hend : ∀ char ∈ more.head?, Text.isWord char = false) (hchars : chars ++ rest = name ++ more) :
    kind.IsNumber ∨ chars = name ∧ rest = more ∧ kind = wordKind (String.ofList name) ∧
      name.head?.any Text.isLetter = true := by
  have hhead : ∀ first ∈ (chars ++ rest).head?, Text.isWord first = true := by
    intro first hfirst
    obtain ⟨head, others, rfl⟩ := List.exists_cons_of_ne_nil hname
    rw [hchars] at hfirst
    cases hfirst
    exact hword first List.mem_cons_self
  have hall : (symbols.all fun char => !Text.isWord char) = true := by decide
  have hsymbol : ∀ char ∈ symbols, Text.isWord char = false := fun char hchar => by
    simpa using List.all_eq_true.mp hall char hchar
  cases hlexeme with
  | integer => exact .inl trivial
  | decimal => exact .inl trivial
  | @word first others _ hfirst hothers hafter =>
    have hall : ∀ char ∈ first :: others, Text.isWord char = true := by
      rintro char (_ | ⟨_, hchar⟩)
      · exact Text.isWord_of_isAlphanumeric (Text.isAlphanumeric_of_isLetter hfirst)
      · exact hothers char hchar
    have hfront : first :: others = name := by
      rw [← takeWhile_append_of_ends hall hafter, hchars, takeWhile_append_of_ends hword hend]
    have hback : rest = more := by
      rw [← dropWhile_append_of_ends hall hafter, hchars, dropWhile_append_of_ends hword hend]
    exact .inr ⟨hfront, hback, by rw [hfront], by rw [← hfront]; exact hfirst⟩
  | atSign => exact absurd (hhead '@' rfl) (by decide)
  | string => exact absurd (hhead '"' rfl) (by decide)
  | @pairOperator first _ _ hpair =>
    have hfirst := hsymbol first (mem_symbols_of_pairOperator hpair).1
    rw [hhead first rfl] at hfirst
    cases hfirst
  | @singleOperator first _ hsingle =>
    have hfirst := hsymbol first (mem_symbols_of_singleOperator hsingle)
    rw [hhead first rfl] at hfirst
    cases hfirst
  | @punctuation first _ _ hkind =>
    have hfirst := hsymbol first (mem_symbols_of_punctuation hkind).1
    rw [hhead first rfl] at hfirst
    cases hfirst

/-- A lexeme is still one when a blank or nothing follows it. -/
theorem Lexeme.apart (hlexeme : Lexeme previous kind chars rest) {later : List Char}
    (hlater : ∀ char ∈ later.head?, char = ' ') : Lexeme previous kind chars later := by
  have hword : ∀ char ∈ later.head?, Text.isWord char = false := by
    intro char hchar
    rw [hlater char hchar]
    decide
  have hdigit : startsWithDigit later = false := by
    refine startsWithDigit_eq_false.mpr fun char hchar => ?_
    rw [hlater char hchar]
    decide
  have hfraction : startsWithFraction later = false := by
    rw [startsWithFraction]
    rintro others rfl
    cases hlater '.' rfl
  cases hlexeme with
  | atSign => exact .atSign
  | integer hsign hbody hvalue =>
    cases hbody with
    | whole hdigits => exact .integer hsign (.whole hdigits hdigit hfraction) hvalue
  | decimal hsign hbody hvalue =>
    cases hbody with
    | pointed hwhole hdigits => exact .decimal hsign (.pointed hwhole hdigits hdigit) hvalue
  | word hfirst hothers => exact .word hfirst hothers hword
  | string hcontent => exact .string hcontent
  | pairOperator hpair => exact .pairOperator hpair
  | @singleOperator char _ hsingle =>
    refine .singleOperator hsingle ?_ fun _ => by rw [hdigit]; rfl
    cases later with
    | nil => simp [pairOperators]
    | cons next others =>
      rw [hlater next rfl]
      simp [pairOperators]
  | punctuation hkind => exact .punctuation hkind

/-- A lexeme is still one when a blank is put behind the characters that follow it. -/
theorem Lexeme.append (hlexeme : Lexeme previous kind chars rest) {later : List Char}
    (hlater : ∀ char ∈ later.head?, char = ' ') : Lexeme previous kind chars (rest ++ later) := by
  cases rest with
  | nil => exact hlexeme.apart hlater
  | cons next others =>
    have hfraction : startsWithFraction (next :: others ++ later) =
        startsWithFraction (next :: others) := by
      have hdigit : startsWithDigit (others ++ later) = startsWithDigit others := by
        cases others with
        | cons char others => rfl
        | nil =>
          refine startsWithDigit_eq_false.mpr fun char hchar => ?_
          rw [hlater char hchar]
          decide
      simp only [startsWithFraction, List.cons_append]
      split <;> simp_all
    cases hlexeme with
    | atSign => exact .atSign
    | integer hsign hbody hvalue =>
      cases hbody with
      | whole hdigits hend hnot => exact .integer hsign (.whole hdigits hend (hfraction ▸ hnot)) hvalue
    | decimal hsign hbody hvalue =>
      cases hbody with
      | pointed hwhole hdigits hend => exact .decimal hsign (.pointed hwhole hdigits hend) hvalue
    | word hfirst hothers hend => exact .word hfirst hothers hend
    | string hcontent => exact .string hcontent
    | pairOperator hpair => exact .pairOperator hpair
    | singleOperator hsingle hpair hminus => exact .singleOperator hsingle hpair hminus
    | punctuation hkind => exact .punctuation hkind

/-- Of the token before a lexeme it only matters whether an operand may start after it. -/
theorem Lexeme.after (hlexeme : Lexeme previous kind chars rest) {other : Option TokenKind}
    (hother : operandMayStart other = operandMayStart previous) : Lexeme other kind chars rest := by
  cases hlexeme with
  | atSign => exact .atSign
  | integer hsign hbody hvalue =>
    exact .integer (hsign.imp_right (And.imp_right (hother.trans ·))) hbody hvalue
  | decimal hsign hbody hvalue =>
    exact .decimal (hsign.imp_right (And.imp_right (hother.trans ·))) hbody hvalue
  | word hfirst hothers hend => exact .word hfirst hothers hend
  | string hcontent => exact .string hcontent
  | pairOperator hpair => exact .pairOperator hpair
  | singleOperator hsingle hpair hminus =>
    exact .singleOperator hsingle hpair fun hchar => hother ▸ hminus hchar
  | punctuation hkind => exact .punctuation hkind

/-- A minus sign in a number is the sign of it. -/
theorem minus_of_number {sign body : List Char} {hasPoint : Bool} (hsign : SignAfter previous sign)
    (hbody : NumberBody body hasPoint rest) {offset : Nat}
    (hminus : (sign ++ body)[offset]? = some '-') :
    offset = 0 ∧ startsWithDigit ((sign ++ body).tail ++ rest) = true ∧
      operandMayStart previous = true := by
  obtain rfl | ⟨rfl, hoperand⟩ := hsign
  · exact absurd (List.mem_of_getElem? hminus) hbody.not_mem_minus
  · cases offset with
    | zero => exact ⟨rfl, hbody.startsWithDigit, hoperand⟩
    | succ offset =>
      have hinside : body[offset]? = some '-' := hminus
      exact absurd (List.mem_of_getElem? hinside) hbody.not_mem_minus

/-- Where a minus sign stands in a lexeme: inside a string, at the front of an arrow, or at
the front of a token that is a number if a digit comes next and an operand may start, and
the operator otherwise. -/
theorem Lexeme.minus (hlexeme : Lexeme previous kind chars rest) {offset : Nat}
    (hminus : chars[offset]? = some '-') :
    (∃ content, kind = .string content) ∨
      offset = 0 ∧ (kind = .operator ∧ chars = ['-', '>'] ∨
        (kind.IsNumber ↔
            startsWithDigit (chars.tail ++ rest) = true ∧ operandMayStart previous = true) ∧
          (¬ kind.IsNumber → kind = .operator ∧ chars = ['-'])) := by
  have hmem := List.mem_of_getElem? hminus
  cases hlexeme with
  | atSign => simp at hmem
  | integer hsign hbody =>
    obtain ⟨hoffset, hstarts⟩ := minus_of_number hsign hbody hminus
    exact Or.inr ⟨hoffset, Or.inr
      ⟨⟨fun _ => hstarts, fun _ => trivial⟩, fun hnot => (hnot trivial).elim⟩⟩
  | decimal hsign hbody =>
    obtain ⟨hoffset, hstarts⟩ := minus_of_number hsign hbody hminus
    exact Or.inr ⟨hoffset, Or.inr
      ⟨⟨fun _ => hstarts, fun _ => trivial⟩, fun hnot => (hnot trivial).elim⟩⟩
  | word hfirst hothers =>
    rcases List.mem_cons.mp hmem with rfl | hrest
    · exact absurd hfirst (by decide)
    · exact absurd (hothers '-' hrest) (by decide)
  | string => exact Or.inl ⟨_, rfl⟩
  | pairOperator hpair =>
    have hall : (pairOperators.all fun operator =>
        !operator.contains '-' || operator == ['-', '>']) = true := by decide
    have harrow := List.all_eq_true.mp hall _ hpair
    rw [List.contains_iff_mem.mpr hmem, Bool.not_true, Bool.false_or, beq_iff_eq] at harrow
    rw [harrow] at hminus ⊢
    cases offset with
    | zero => exact Or.inr ⟨rfl, Or.inl ⟨rfl, rfl⟩⟩
    | succ offset => cases offset <;> simp at hminus
  | singleOperator _ _ hnumber =>
    obtain rfl := List.mem_singleton.mp hmem
    cases offset with
    | zero =>
      have hnot := hnumber rfl
      rw [Bool.and_eq_false_iff] at hnot
      refine Or.inr ⟨rfl, Or.inr ⟨⟨False.elim, ?_⟩, fun _ => ⟨rfl, rfl⟩⟩⟩
      rintro ⟨hdigit, hoperand⟩
      rcases hnot with hnot | hnot
      · exact absurd hdigit (by simp [hnot])
      · exact absurd hoperand (by simp [hnot])
    | succ offset => simp at hminus
  | punctuation hkind =>
    obtain rfl := List.mem_singleton.mp hmem
    cases hkind

end

end Scan

end Patchwork
