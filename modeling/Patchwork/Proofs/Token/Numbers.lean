import Patchwork.Proofs.Signs.Numbers

/-!
# Runs of digits that are numbers

The digits of a number token are characters that count as digits, and not all of these have
a place in a numeral.  A run of digits, with a point in it or without, is a number exactly
if each of its digits is a decimal one.
-/

namespace Patchwork

namespace Numeral

/-- Only decimal digits become ASCII ones. -/
theorem isDigit_plainChar_iff {char : Char} :
    (plainChar char).isDigit = true ↔ Text.isDecimal char = true := by
  rw [plainChar, Text.isDecimal]
  cases hvalue : Text.decimalValue? char with
  | some value => exact iff_of_true (Text.isDigit_digitChar value) rfl
  | none =>
    refine iff_of_false (fun hdigit => ?_) Bool.false_ne_true
    have hdecimal := Text.isDecimal_of_isDigit hdigit
    rw [Option.map_none, Option.getD_none, Text.isDecimal, hvalue] at hdecimal
    cases hdecimal

theorem isSome_natural?_iff {chars : List Char} :
    (natural? chars).isSome = true ↔ chars ≠ [] ∧ ∀ char ∈ chars, char.isDigit = true := by
  simp [natural?]

/-- No exponent starts with a digit. -/
theorem exponent?_of_isDigit {first : Char} (hdigit : Text.isDigit first = true)
    (rest : List Char) : exponent? (first :: rest) = none := by
  have hlower : first ≠ 'e' := by
    rintro rfl
    exact absurd hdigit (by decide)
  have hupper : first ≠ 'E' := by
    rintro rfl
    exact absurd hdigit (by decide)
  simp [exponent?, hlower, hupper]

theorem exists_dropWhile_eq_cons {accepts : Char → Bool} {chars : List Char}
    (hnot : ¬ ∀ char ∈ chars, accepts char = true) (more : List Char) :
    ∃ char others, (chars ++ more).dropWhile accepts = char :: others ∧ char ∈ chars := by
  induction chars with
  | nil => exact absurd nofun hnot
  | cons first rest ih =>
    by_cases hfirst : accepts first = true
    · rw [List.forall_mem_cons, not_and] at hnot
      obtain ⟨char, others, hdrop, hchar⟩ := ih (hnot hfirst)
      exact ⟨char, others, by rw [List.cons_append, List.dropWhile_cons_of_pos hfirst, hdrop],
        List.mem_cons_of_mem _ hchar⟩
    · exact ⟨first, rest ++ more, List.dropWhile_cons_of_neg hfirst, List.mem_cons_self⟩

/-- Digits around a point are a decimal number if they are all ASCII ones. -/
theorem isSome_decimal?_iff {whole fraction : List Char} (hwhole : Scan.Digits whole)
    (hfraction : Scan.Digits fraction) :
    (decimal? (whole ++ '.' :: fraction)).isSome = true ↔
      ∀ char ∈ whole ++ fraction, char.isDigit = true := by
  have hpoint : ∀ char ∈ ('.' :: fraction).head?, char.isDigit = false := by
    rintro char ⟨⟩
    decide
  by_cases hplain : ∀ char ∈ whole, char.isDigit = true
  · have htake := Scan.takeWhile_append_of_ends hplain hpoint
    have hdrop := Scan.dropWhile_append_of_ends hplain hpoint
    by_cases hrest : ∀ char ∈ fraction, char.isDigit = true
    · have hall : ∀ char ∈ whole ++ fraction, char.isDigit = true :=
        List.forall_mem_append.mpr ⟨hplain, hrest⟩
      have hnonempty : whole ++ fraction ≠ [] := by simp [hwhole.some]
      obtain ⟨value, hvalue⟩ :=
        Option.isSome_iff_exists.mp (isSome_natural?_iff.mpr ⟨hnonempty, hall⟩)
      refine iff_of_true ?_ hall
      have hfits := @Scan.takeWhile_append_of_ends _ fraction [] hrest nofun
      have hends := @Scan.dropWhile_append_of_ends _ fraction [] hrest nofun
      rw [List.append_nil] at hfits hends
      simp [decimal?, htake, hdrop, hfits, hends, hvalue, exponent?]
    · obtain ⟨char, others, hstops, hchar⟩ := exists_dropWhile_eq_cons hrest []
      rw [List.append_nil] at hstops
      refine iff_of_false ?_ fun hall => hrest (List.forall_mem_append.mp hall).2
      simp [decimal?, htake, hdrop, hstops, exponent?_of_isDigit (hfraction.all char hchar)]
  · obtain ⟨char, others, hstops, hchar⟩ := exists_dropWhile_eq_cons hplain ('.' :: fraction)
    have hdigit := hwhole.all char hchar
    refine iff_of_false ?_ fun hall => hplain (List.forall_mem_append.mp hall).1
    have hdot : char ≠ '.' := by
      rintro rfl
      exact absurd hdigit (by decide)
    simp [decimal?, hstops, hdot, exponent?_of_isDigit hdigit]

end Numeral

namespace Scan

/-- Every digit among some characters is a decimal one. -/
def AllDecimal (chars : List Char) : Prop :=
  ∀ char ∈ chars, Text.isDigit char = true → Text.isDecimal char = true

section

variable {previous : Option TokenKind} {sign digits body rest : List Char} {hasPoint : Bool}

theorem exists_splitSign (hsign : SignAfter previous sign) (hbody : Numeral.Unsigned body) :
    ∃ negative, Numeral.splitSign (Numeral.plainChars (String.ofList (sign ++ body))) =
      (negative, body.map Numeral.plainChar) := by
  obtain ⟨hsigned, hunsigned⟩ := Numeral.splitSign_of_unsigned hbody
  obtain rfl | ⟨rfl, -⟩ := hsign
  · exact ⟨false, hunsigned⟩
  · exact ⟨true, hsigned⟩

theorem Digits.map_plainChar (hdigits : Digits digits) :
    Digits (digits.map Numeral.plainChar) where
  some := by simp [hdigits.some]
  all := List.forall_mem_map.mpr fun char hchar =>
    Numeral.isDigit_plainChar (hdigits.all char hchar)

/-- All digits become ASCII ones exactly if they are decimal. -/
theorem Digits.allDecimal_iff (hdigits : Digits digits) :
    (∀ char ∈ digits.map Numeral.plainChar, char.isDigit = true) ↔ AllDecimal digits := by
  rw [List.forall_mem_map]
  simp only [Numeral.isDigit_plainChar_iff]
  exact ⟨fun hdecimal char hchar _ => hdecimal char hchar,
    fun hdecimal char hchar => hdecimal char hchar (hdigits.all char hchar)⟩

theorem Digits.not_mem_underscore (hdigits : Digits digits) : '_' ∉ digits :=
  fun hmem => absurd (hdigits.all '_' hmem) (by decide)

theorem isSome_integer?_iff (hsign : SignAfter previous sign)
    (hbody : NumberBody body false rest) :
    (Numeral.integer? (String.ofList (sign ++ body))).isSome = true ↔ AllDecimal body := by
  obtain ⟨negative, hsplit⟩ := exists_splitSign hsign hbody.unsigned
  cases hbody with
  | whole hdigits =>
    have hplain := hdigits.map_plainChar
    have hnatural : (Numeral.natural? (body.map Numeral.plainChar)).isSome = true ↔
        AllDecimal body := by
      rw [Numeral.isSome_natural?_iff, and_iff_right hplain.some, hdigits.allDecimal_iff]
    rw [← hnatural, Numeral.integer?, hsplit]
    dsimp only
    rw [Numeral.withoutUnderscores_of_not_mem false hplain.not_mem_underscore, Option.bind_some]
    cases Numeral.natural? (body.map Numeral.plainChar) <;> rfl

theorem isSome_float?_iff (hsign : SignAfter previous sign)
    (hbody : NumberBody body true rest) :
    (Numeral.float? (String.ofList (sign ++ body))).isSome = true ↔ AllDecimal body := by
  have hunsigned := hbody.unsigned
  obtain ⟨negative, hsplit⟩ := exists_splitSign hsign hunsigned
  cases hbody with
  | @pointed whole fraction _ hwhole hfraction =>
    have hpoint : Numeral.plainChar '.' = '.' := by decide
    have hmap : (whole ++ '.' :: fraction).map Numeral.plainChar =
        whole.map Numeral.plainChar ++ '.' :: fraction.map Numeral.plainChar := by
      rw [List.map_append, List.map_cons, hpoint]
    have hplain : '_' ∉ (whole ++ '.' :: fraction).map Numeral.plainChar := by
      rw [hmap]
      simp [hwhole.map_plainChar.not_mem_underscore, hfraction.map_plainChar.not_mem_underscore]
    have hdecimal : (Numeral.decimal? ((whole ++ '.' :: fraction).map Numeral.plainChar)).isSome =
        true ↔ AllDecimal (whole ++ '.' :: fraction) := by
      rw [hmap, Numeral.isSome_decimal?_iff hwhole.map_plainChar hfraction.map_plainChar,
        List.forall_mem_append, hwhole.allDecimal_iff, hfraction.allDecimal_iff]
      simp only [AllDecimal, List.forall_mem_append, List.forall_mem_cons]
      have hdot : Text.isDigit '.' = true → Text.isDecimal '.' = true := by decide
      rw [iff_true_intro hdot, true_and]
    rw [← hdecimal, Numeral.float?, hsplit]
    dsimp only
    rw [hunsigned.ne_word "inf" (by decide), hunsigned.ne_word "infinity" (by decide),
      hunsigned.ne_word "nan" (by decide), Numeral.withoutUnderscores_of_not_mem false hplain,
      Option.bind_some]
    cases Numeral.decimal? ((whole ++ '.' :: fraction).map Numeral.plainChar) <;> rfl

end

end Scan

end Patchwork
