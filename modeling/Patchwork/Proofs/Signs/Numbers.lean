import Patchwork.Proofs.Signs.Folding
import Patchwork.Proofs.Text.Numerals
import Patchwork.Proofs.Token.Lexemes

/-!
# Numbers with a minus sign

A minus sign that a number token starts with changes the number to its opposite and nothing
else: without it the rest of the token is a number token as well.
-/

namespace Patchwork

namespace Numeral

/-- The characters of a number without its sign: the first is a digit and none is a blank. -/
structure Unsigned (body : List Char) : Prop where
  digit : ∃ first others, body = first :: others ∧ Text.isDigit first = true
  plain : ∀ char ∈ body, isPadding char = false

/-- The ASCII digit in place of a decimal digit, and any other character. -/
def plainChar (char : Char) : Char :=
  ((Text.decimalValue? char).map Text.digitChar).getD char

/-- Nothing is removed from a text without blanks. -/
theorem plainChars_of_plain {chars : List Char} (hplain : ∀ char ∈ chars, isPadding char = false) :
    plainChars (String.ofList chars) = chars.map plainChar := by
  have hdrop : ∀ chars : List Char, (∀ char ∈ chars, isPadding char = false) →
      chars.dropWhile isPadding = chars := by
    intro chars hchars
    cases chars with
    | nil => rfl
    | cons first rest =>
      exact List.dropWhile_cons_of_neg (by simp [hchars first List.mem_cons_self])
  have hback := hdrop chars.reverse fun char hchar => hplain char (List.mem_reverse.mp hchar)
  rw [plainChars, String.toList_ofList, hdrop chars hplain, hback, List.reverse_reverse]
  refine List.map_congr_left fun char _ => ?_
  rw [plainChar]
  cases Text.decimalValue? char <;> rfl

theorem isDigit_plainChar {char : Char} (hdigit : Text.isDigit char = true) :
    Text.isDigit (plainChar char) = true := by
  rw [plainChar]
  cases Text.decimalValue? char with
  | none => exact hdigit
  | some value =>
    exact Text.isDigit_of_isDecimal (Text.isDecimal_of_isDigit (Text.isDigit_digitChar value))

theorem splitSign_of_isDigit {first : Char} (others : List Char)
    (hdigit : Text.isDigit first = true) :
    splitSign (first :: others) = (false, first :: others) := by
  rw [splitSign]
  all_goals
    intro _ hsign
    rw [(List.cons.inj hsign).1] at hdigit
    exact absurd hdigit (by decide)

/-- A minus sign in front is split off, and nothing is in front of a digit. -/
theorem splitSign_of_unsigned {body : List Char} (hbody : Unsigned body) :
    splitSign (plainChars (String.ofList ('-' :: body))) = (true, body.map plainChar) ∧
      splitSign (plainChars (String.ofList body)) = (false, body.map plainChar) := by
  have hsigned : ∀ char ∈ '-' :: body, isPadding char = false :=
    List.forall_mem_cons.mpr ⟨by decide, hbody.plain⟩
  have hminus : plainChar '-' = '-' := by decide
  rw [plainChars_of_plain hsigned, plainChars_of_plain hbody.plain]
  obtain ⟨first, others, rfl, hdigit⟩ := hbody.digit
  refine ⟨by rw [List.map_cons, hminus]; rfl, ?_⟩
  exact splitSign_of_isDigit (others.map plainChar) (isDigit_plainChar hdigit)

/-- With a minus sign in front an integer is the opposite of a natural number. -/
theorem exists_of_integer?_minus {body : List Char} (hbody : Unsigned body) {value : Int}
    (hvalue : integer? (String.ofList ('-' :: body)) = some value) :
    ∃ number : Nat, value = -number ∧ integer? (String.ofList body) = some (number : Int) := by
  obtain ⟨hsigned, hunsigned⟩ := splitSign_of_unsigned hbody
  rw [integer?, hsigned] at hvalue
  rw [integer?, hunsigned]
  dsimp only at hvalue ⊢
  split at hvalue <;> cases hvalue
  rename_i number _
  exact ⟨number, rfl, rfl⟩

theorem ofUnits_cases (units : Nat) :
    (∃ fits, ∀ negative, Binary64.ofUnits negative units = .finite negative units fits) ∨
      ∀ negative, Binary64.ofUnits negative units = .infinite negative := by
  by_cases hfits : fitsUnits units = true
  · exact .inl ⟨hfits, fun negative => dif_pos hfits⟩
  · exact .inr fun negative => dif_neg hfits

/-- The sign of a decimal is that of the number it is nearest to. -/
theorem toBinary64_cases (decimal : Decimal) :
    (∃ units fits, ∀ negative, decimal.toBinary64 negative = .finite negative units fits) ∨
      ∀ negative, decimal.toBinary64 negative = .infinite negative := by
  have hcases : (∃ units, ∀ negative,
      decimal.toBinary64 negative = Binary64.ofUnits negative units) ∨
        ∀ negative, decimal.toBinary64 negative = .infinite negative := by
    unfold Decimal.toBinary64
    by_cases hzero : decimal.digits = 0 ∨
        ((decimalDigits decimal.digits).length : Int) + decimal.exponent < -400
    · exact .inl ⟨0, fun negative => if_pos hzero⟩
    · by_cases hlarge : 400 < ((decimalDigits decimal.digits).length : Int) + decimal.exponent
      · exact .inr fun negative => (if_neg hzero).trans (if_pos hlarge)
      · exact .inl ⟨decimal.units, fun negative => (if_neg hzero).trans (if_neg hlarge)⟩
  obtain ⟨units, hunits⟩ | hinfinite := hcases
  · simp only [hunits]
    exact (ofUnits_cases units).imp_left fun hfinite => ⟨units, hfinite⟩
  · exact .inr hinfinite

/-- No word is a numeral that starts with a digit. -/
theorem ofList_toLower_ne {first : Char} (others : List Char) (hdigit : Text.isDigit first = true)
    (word : String) (hword : word.toList.head?.all fun char => !Text.isDigit char) :
    (String.ofList ((first :: others).map Char.toLower) == word) = false := by
  have hlower : first.toLower = first := by
    delta Char.toLower
    rw [dif_neg]
    rintro ⟨hlow, hhigh⟩
    have hupper : Text.CodeRanges.contain [(65, 90)] first.toNat = true := by
      have hbounds : 65 ≤ first.toNat ∧ first.toNat ≤ 90 := ⟨hlow, hhigh⟩
      simp only [Text.CodeRanges.contain, if_neg (Nat.not_lt.mpr hbounds.1), if_pos hbounds.2]
    have hnot : Text.isDigit first = false :=
      Text.isDigit_eq_false_of_contain (by decide +kernel) (by decide +kernel) hupper
    rw [hnot] at hdigit
    cases hdigit
  rw [beq_eq_false_iff_ne]
  rintro rfl
  rw [String.toList_ofList, List.map_cons, hlower] at hword
  simp [hdigit] at hword

theorem Unsigned.ne_word {body : List Char} (hbody : Unsigned body) (word : String)
    (hword : (word.toList.head?.all fun char => !Text.isDigit char) = true) :
    (String.ofList ((body.map plainChar).map Char.toLower) == word) = false := by
  obtain ⟨first, others, rfl, hdigit⟩ := hbody.digit
  exact ofList_toLower_ne (others.map plainChar) (isDigit_plainChar hdigit) word hword

/-- With a minus sign in front a decimal number is the opposite of one that has no sign. -/
theorem exists_of_float?_minus {body : List Char} (hbody : Unsigned body) {value : Binary64}
    (hvalue : float? (String.ofList ('-' :: body)) = some value) :
    (∃ units fits, value = .finite true units fits ∧
        float? (String.ofList body) = some (.finite false units fits)) ∨
      value = .infinite true ∧ float? (String.ofList body) = some (.infinite false) := by
  obtain ⟨hsigned, hunsigned⟩ := splitSign_of_unsigned hbody
  rw [float?, hsigned] at hvalue
  rw [float?, hunsigned]
  dsimp only at hvalue ⊢
  rw [hbody.ne_word "inf" (by decide), hbody.ne_word "infinity" (by decide),
    hbody.ne_word "nan" (by decide)] at hvalue ⊢
  obtain ⟨decimal, hdecimal, rfl⟩ := Option.map_eq_some_iff.mp hvalue
  rw [hdecimal]
  obtain ⟨units, fits, hfinite⟩ | hinfinite := toBinary64_cases decimal
  · exact .inl ⟨units, fits, hfinite true, congrArg some (hfinite false)⟩
  · exact .inr ⟨hinfinite true, congrArg some (hinfinite false)⟩

end Numeral

/-! ## Number tokens -/

namespace TokenKind

/-- The number of a number token. -/
def number? : TokenKind → Option Value
  | .int number => some (.integer number)
  | .float number => some (.float number)
  | _ => none

/-- Whether a token is the number zero. -/
def isZero : TokenKind → Bool
  | .int number => number == 0
  | .float number => number.isZero
  | _ => false

/-- One token is a number, and the other one a number of which it is the opposite. -/
def IsOpposite (kind other : TokenKind) : Prop :=
  ∃ value opposite, other.number? = some value ∧ kind.number? = some opposite ∧
    value.negated? kind.isZero = some opposite

theorem notFinish_of_number? {kind : TokenKind} {value : Value}
    (hnumber : kind.number? = some value) : kind ≠ .finish := by
  rintro rfl
  cases hnumber

/-- No operand starts directly after a number. -/
theorem not_operandMayStart_of_number? {kind : TokenKind} {value : Value}
    (hnumber : kind.number? = some value) : Scan.operandMayStart (some kind) = false := by
  cases kind with
  | int | float => rfl
  | _ => cases hnumber

end TokenKind

namespace Scan

variable {previous : Option TokenKind} {kind : TokenKind} {chars rest : List Char}

theorem NumberBody.unsigned {body : List Char} {hasPoint : Bool}
    (hbody : NumberBody body hasPoint rest) : Numeral.Unsigned body := by
  have hdigit : ∀ char, Text.isDigit char = true → Numeral.isPadding char = false := by
    intro char hdigit
    rw [Numeral.isPadding, Text.isBlank_eq_false_of_digit hdigit, Bool.false_and]
  have hfirst : ∀ {digits : List Char} (others : List Char), Digits digits →
      ∃ first more, digits ++ others = first :: more ∧ Text.isDigit first = true := by
    intro digits others hdigits
    obtain ⟨first, more, rfl⟩ := List.exists_cons_of_ne_nil hdigits.some
    exact ⟨first, more ++ others, rfl, hdigits.all first List.mem_cons_self⟩
  cases hbody with
  | whole hdigits =>
    refine ⟨?_, fun char hchar => hdigit char (hdigits.all char hchar)⟩
    simpa using hfirst [] hdigits
  | @pointed whole fraction _ hwhole hdigits =>
    refine ⟨hfirst _ hwhole, List.forall_mem_append.mpr
      ⟨fun char hchar => hdigit char (hwhole.all char hchar), List.forall_mem_cons.mpr
        ⟨by decide, fun char hchar => hdigit char (hdigits.all char hchar)⟩⟩⟩

theorem eq_of_minus {sign body : List Char} {hasPoint : Bool} (hsign : SignAfter previous sign)
    (hbody : NumberBody body hasPoint rest) (hminus : '-' :: chars = sign ++ body) :
    sign = ['-'] ∧ chars = body ∧ operandMayStart previous = true := by
  obtain rfl | ⟨rfl, hoperand⟩ := hsign
  · rw [List.nil_append] at hminus
    exact absurd (hminus ▸ List.mem_cons_self) hbody.not_mem_minus
  · exact ⟨rfl, (List.cons.inj hminus).2, hoperand⟩

/-- Without the minus sign a number token starts with, the rest of it is the opposite number. -/
theorem Lexeme.unsigned (hlexeme : Lexeme previous kind ('-' :: chars) rest)
    (hkind : kind.IsNumber) (place : Option TokenKind) :
    ∃ other, kind.IsOpposite other ∧ Lexeme place other chars rest := by
  generalize hsigned : '-' :: chars = signed at hlexeme
  cases hlexeme with
  | integer hsign hbody hvalue =>
    obtain ⟨rfl, rfl, -⟩ := eq_of_minus hsign hbody hsigned
    obtain ⟨number, rfl, hunsigned⟩ := Numeral.exists_of_integer?_minus hbody.unsigned hvalue
    refine ⟨.int number, ⟨_, _, rfl, rfl, ?_⟩, .integer (Or.inl rfl) hbody hunsigned⟩
    rw [Value.negated?, if_pos]
    rw [TokenKind.isZero, beq_iff_eq]
    omega
  | decimal hsign hbody hvalue =>
    obtain ⟨rfl, rfl, -⟩ := eq_of_minus hsign hbody hsigned
    obtain ⟨units, fits, rfl, hunsigned⟩ | ⟨rfl, hunsigned⟩ :=
      Numeral.exists_of_float?_minus hbody.unsigned hvalue
    · refine ⟨.float (.finite false units fits), ⟨_, _, rfl, rfl, ?_⟩,
        .decimal (Or.inl rfl) hbody hunsigned⟩
      rw [Value.negated?, if_pos]
      rw [TokenKind.isZero, Binary64.isZero, beq_iff_eq]
      exact (em (units = 0)).symm
    · exact ⟨.float (.infinite false), ⟨_, _, rfl, rfl, rfl⟩,
        .decimal (Or.inl rfl) hbody hunsigned⟩
  | word =>
    rw [wordKind] at hkind
    split_ifs at hkind <;> exact hkind.elim
  | punctuation hmark =>
    cases hsigned
    cases hmark
  | atSign | string | pairOperator | singleOperator => exact hkind.elim

end Scan

end Patchwork
