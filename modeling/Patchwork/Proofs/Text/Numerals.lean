import Patchwork.Number.Numeral
import Patchwork.Text.Letter

/-!
# Characters and numerals

A set of characters is given by ranges of code points in ascending order.  Walking
through the ranges once shows that no character of another range is in the set: in
this way letters, blanks and digits are told from each other.

The text of a natural number consists of ASCII digits, each of which is a decimal
digit with the value it had when it was written.  An integer is read back from its
text.
-/

namespace Patchwork

namespace Text

/-! ## Kinds of characters -/

namespace CodeRanges

/-- Whether all code points of a range fall between the ranges of a set. -/
def misses : CodeRanges → Nat × Nat → Bool
  | [], _ => true
  | (first, last) :: rest, range =>
    range.2.blt first || (last.blt range.1 && misses rest range)

theorem contain_eq_false {ranges : CodeRanges} {range : Nat × Nat} {code : Nat}
    (hmisses : ranges.misses range = true) (hfirst : range.1 ≤ code) (hlast : code ≤ range.2) :
    ranges.contain code = false := by
  induction ranges with
  | nil => rfl
  | cons head rest ih =>
    simp only [misses, Bool.or_eq_true, Bool.and_eq_true, Nat.blt_eq] at hmisses
    rw [contain]
    split
    · rfl
    · obtain habove | ⟨hbelow, hrest⟩ := hmisses
      · omega
      · rw [if_neg (by omega), ih hrest]

theorem exists_of_contain {ranges : CodeRanges} {code : Nat}
    (hcode : ranges.contain code = true) :
    ∃ range ∈ ranges, range.1 ≤ code ∧ code ≤ range.2 := by
  induction ranges with
  | nil => simp [contain] at hcode
  | cons head rest ih =>
    rw [contain] at hcode
    split at hcode
    · simp at hcode
    · split at hcode
      · exact ⟨head, List.mem_cons_self, by omega, by omega⟩
      · obtain ⟨range, hrange, hbounds⟩ := ih hcode
        exact ⟨range, List.mem_cons_of_mem _ hrange, hbounds⟩

/-- Two sets have no code point in common when the ranges of one miss the other. -/
theorem contain_eq_false_of_all_misses {ranges others : CodeRanges} {code : Nat}
    (hmisses : others.all ranges.misses = true) (hcode : ranges.contain code = true) :
    others.contain code = false := by
  rw [Bool.eq_false_iff]
  intro hother
  obtain ⟨range, hrange, hfirst, hlast⟩ := exists_of_contain hother
  have hmiss := List.all_eq_true.mp hmisses range hrange
  rw [contain_eq_false hmiss hfirst hlast] at hcode
  exact Bool.noConfusion hcode

end CodeRanges

theorem isBlank_eq_false_of_isLetter {char : Char} (hletter : isLetter char = true) :
    isBlank char = false := by
  have hmisses : blankRanges.all letterRanges.misses = true := by decide +kernel
  exact CodeRanges.contain_eq_false_of_all_misses hmisses hletter

theorem isBlank_eq_false_of_isWord {char : Char} (hword : isWord char = true) :
    isBlank char = false := by
  rw [isWord, isAlphanumeric, Bool.or_eq_true, Bool.or_eq_true, beq_iff_eq] at hword
  obtain (hletter | hnumeric) | rfl := hword
  · exact isBlank_eq_false_of_isLetter hletter
  · have hmisses : blankRanges.all numericRanges.misses = true := by decide +kernel
    exact CodeRanges.contain_eq_false_of_all_misses hmisses hnumeric
  · decide

/-- No digit is in a set of characters that all runs of digits miss. -/
theorem isDigit_eq_false_of_contain {ranges : CodeRanges} {char : Char}
    (hdecimal : (decimalZeros.all fun start => ranges.misses (start, start + 9)) = true)
    (hlike : digitLikeRanges.all ranges.misses = true)
    (hchar : ranges.contain char.toNat = true) : isDigit char = false := by
  have hnone : isDecimal char = false := by
    rw [Bool.eq_false_iff]
    intro hvalue
    rw [isDecimal, decimalValue?, Option.isSome_map, List.find?_isSome] at hvalue
    obtain ⟨start, hstart, hbounds⟩ := hvalue
    simp only [Bool.and_eq_true, decide_eq_true_eq] at hbounds
    have hmiss := List.all_eq_true.mp hdecimal start hstart
    rw [CodeRanges.contain_eq_false hmiss hbounds.1 (Nat.le_of_lt_succ hbounds.2)] at hchar
    exact Bool.noConfusion hchar
  rw [isDigit, hnone, Bool.false_or]
  exact CodeRanges.contain_eq_false_of_all_misses hlike hchar

theorem isDigit_eq_false_of_isLetter {char : Char} (hletter : isLetter char = true) :
    isDigit char = false :=
  isDigit_eq_false_of_contain (by decide +kernel) (by decide +kernel) hletter

theorem isDigit_eq_false_of_isBlank {char : Char} (hblank : isBlank char = true) :
    isDigit char = false :=
  isDigit_eq_false_of_contain (by decide +kernel) (by decide +kernel) hblank

theorem isBlank_eq_false_of_digit {char : Char} (hdigit : isDigit char = true) :
    isBlank char = false := by
  rw [Bool.eq_false_iff]
  intro hblank
  rw [isDigit_eq_false_of_isBlank hblank] at hdigit
  cases hdigit

/-! ## Numerals that are written -/

theorem isDigit_iff {char : Char} :
    char.isDigit = true ↔ 48 ≤ char.toNat ∧ char.toNat ≤ 57 := by
  simp [Char.isDigit, UInt32.le_iff_toNat_le]

theorem decimalValue?_of_isDigit {char : Char} (hdigit : char.isDigit = true) :
    decimalValue? char = some (char.toNat - 48) := by
  have hbounds := isDigit_iff.mp hdigit
  have hfound : decimalZeros.find? (fun first =>
      first ≤ char.toNat && char.toNat < first + 10) = some 48 := by
    refine List.find?_cons_of_pos ?_
    simp only [Bool.and_eq_true, decide_eq_true_eq]
    omega
  rw [decimalValue?, hfound, Option.map_some]

theorem isDecimal_of_isDigit {char : Char} (hdigit : char.isDigit = true) :
    isDecimal char = true := by
  rw [isDecimal, decimalValue?_of_isDigit hdigit, Option.isSome_some]

theorem isDigit_digitChar (value : Nat) : (digitChar value).isDigit = true := by
  have hcode : (digitChar value).toNat = 48 + value % 10 := by
    have hvalid : (48 + value % 10).isValidChar := Or.inl (by omega)
    rw [digitChar, Char.ofNat, dif_pos hvalid]
    rfl
  exact isDigit_iff.mpr (by omega)

theorem isBlank_eq_false_of_isDigit {char : Char} (hdigit : char.isDigit = true) :
    isBlank char = false := by
  have hbounds := isDigit_iff.mp hdigit
  have hmisses : blankRanges.misses (48, 57) = true := by decide
  exact CodeRanges.contain_eq_false hmisses hbounds.1 hbounds.2

/-- An ASCII digit is the digit of its own value. -/
theorem digitChar_decimalValue {char : Char} (hdigit : char.isDigit = true) :
    digitChar ((decimalValue? char).getD 0) = char := by
  have hbounds := isDigit_iff.mp hdigit
  rw [decimalValue?_of_isDigit hdigit, Option.getD_some, digitChar,
    show 48 + (char.toNat - 48) % 10 = char.toNat by omega, Char.ofNat_toNat]

end Text

theorem isDigit_of_mem_decimalDigits {number : Nat} {char : Char}
    (hchar : char ∈ decimalDigits number) : char.isDigit = true :=
  Nat.isDigit_of_mem_toDigits (by decide) (by decide) hchar

theorem decimalDigits_ne_nil (number : Nat) : decimalDigits number ≠ [] :=
  Nat.toDigits_ne_nil

@[simp]
theorem toList_integerText_ofNat (number : Nat) :
    (integerText number).toList = decimalDigits number := by
  rw [integerText, if_neg (by omega), Int.natAbs_natCast, String.toList_ofList]

/-- The sign and the digits of an integer. -/
theorem toList_integerText (number : Int) :
    (integerText number).toList =
      (if number < 0 then ['-'] else []) ++ decimalDigits number.natAbs := by
  rw [integerText]
  split
  · rw [String.toList_append, String.toList_ofList, String.toList_ofList]
  · rw [String.toList_ofList, List.nil_append]

theorem dash_or_isDigit_of_mem_integerText {number : Int} {char : Char}
    (hchar : char ∈ (integerText number).toList) : char = '-' ∨ char.isDigit = true := by
  rw [toList_integerText, List.mem_append] at hchar
  obtain hsign | hdigits := hchar
  · refine Or.inl ?_
    split at hsign <;> simp_all
  · exact Or.inr (isDigit_of_mem_decimalDigits hdigits)

/-- Nothing is dropped from either end of characters that are all to be kept. -/
theorem dropWhile_both_ends {dropped : Char → Bool} {chars : List Char}
    (hkept : ∀ char ∈ chars, dropped char = false) :
    chars.dropWhile dropped = chars ∧ chars.reverse.dropWhile dropped = chars.reverse := by
  have hnone : ∀ kept : List Char, (∀ char ∈ kept, dropped char = false) →
      kept.dropWhile dropped = kept := by
    intro kept hkept
    cases kept with
    | nil => rfl
    | cons first rest =>
      exact List.dropWhile_cons_of_neg (by simp [hkept first List.mem_cons_self])
  exact ⟨hnone _ hkept, hnone _ fun char hchar => hkept char (List.mem_reverse.mp hchar)⟩

/-- There are no blanks around the text of an integer. -/
theorem trim_integerText (number : Int) : Text.trim (integerText number) = integerText number := by
  have hkept : ∀ char ∈ (integerText number).toList, Text.isBlank char = false := by
    intro char hchar
    obtain rfl | hdigit := dash_or_isDigit_of_mem_integerText hchar
    · decide
    · exact Text.isBlank_eq_false_of_isDigit hdigit
  obtain ⟨hfront, hback⟩ := dropWhile_both_ends hkept
  rw [Text.trim, Text.trimChars, Text.trimLeft, hfront, Text.trimRight, hback,
    List.reverse_reverse, String.ofList_toList]

namespace Numeral

theorem isPadding_of_isDigit {char : Char} (hdigit : char.isDigit = true) :
    isPadding char = false := by
  have hbounds := Text.isDigit_iff.mp hdigit
  rw [isPadding, Text.isBlank_eq_false_of_isDigit hdigit, Bool.false_and]

/-- Nothing is removed from the text of an integer, and nothing in it is replaced. -/
theorem plainChars_integerText (number : Int) :
    plainChars (integerText number) = (integerText number).toList := by
  have hkept : ∀ char ∈ (integerText number).toList, isPadding char = false := by
    intro char hchar
    obtain rfl | hdigit := dash_or_isDigit_of_mem_integerText hchar
    · decide
    · exact isPadding_of_isDigit hdigit
  obtain ⟨hfront, hback⟩ := dropWhile_both_ends hkept
  simp only [plainChars, hfront, hback, List.reverse_reverse]
  refine (List.map_congr_left fun char hchar => ?_).trans (List.map_id _)
  obtain rfl | hdigit := dash_or_isDigit_of_mem_integerText hchar
  · decide
  · have hvalue := Text.digitChar_decimalValue hdigit
    rw [Text.decimalValue?_of_isDigit hdigit] at hvalue ⊢
    exact hvalue

theorem withoutUnderscores_of_not_mem (afterDigit : Bool) {chars : List Char}
    (hplain : '_' ∉ chars) : withoutUnderscores afterDigit chars = some chars := by
  induction chars generalizing afterDigit with
  | nil => rfl
  | cons char rest ih =>
    have hchar : char ≠ '_' := fun hunderscore => hplain (hunderscore ▸ List.mem_cons_self)
    have hrest : '_' ∉ rest := fun hmem => hplain (List.mem_cons_of_mem _ hmem)
    rw [withoutUnderscores, ih char.isDigit hrest, Option.map_some]
    · rintro _ _ rfl
      exact absurd rfl hchar
    · rintro rfl
      exact absurd rfl hchar

theorem natural?_decimalDigits (number : Nat) :
    natural? (decimalDigits number) = some number := by
  have hall : (decimalDigits number).all Char.isDigit = true :=
    List.all_eq_true.mpr fun digit hdigit => isDigit_of_mem_decimalDigits hdigit
  have hsome : (decimalDigits number).isEmpty = false :=
    List.isEmpty_eq_false_iff.mpr (decimalDigits_ne_nil number)
  rw [natural?, hsome, hall]
  exact congrArg some Nat.ofDigitChars_ten_toDigits

/-- An integer is read back from its text. -/
theorem integer?_integerText (number : Int) : integer? (integerText number) = some number := by
  have hread : (withoutUnderscores false (decimalDigits number.natAbs)).bind natural? =
      some number.natAbs := by
    have hplain : '_' ∉ decimalDigits number.natAbs := fun hmem =>
      absurd (isDigit_of_mem_decimalDigits hmem) (by decide)
    rw [withoutUnderscores_of_not_mem false hplain, Option.bind_some, natural?_decimalDigits]
  have hsplit : splitSign (integerText number).toList =
      (decide (number < 0), decimalDigits number.natAbs) := by
    rw [toList_integerText]
    by_cases hsign : number < 0
    · rw [if_pos hsign, decide_eq_true hsign]
      rfl
    · rw [if_neg hsign, decide_eq_false hsign, List.nil_append]
      cases hdigits : decimalDigits number.natAbs with
      | nil => rfl
      | cons digit rest =>
        have hdigit := isDigit_of_mem_decimalDigits (hdigits ▸ List.mem_cons_self : digit ∈ _)
        rw [splitSign]
        all_goals
          intro _ hsigned
          rw [(List.cons.inj hsigned).1] at hdigit
          exact absurd hdigit (by decide)
  simp only [integer?, plainChars_integerText, hsplit, hread]
  by_cases hsign : number < 0
  · simp only [decide_eq_true hsign, if_true]
    congr 1
    omega
  · simp only [decide_eq_false hsign]
    congr 1
    simp
    omega

end Numeral

end Patchwork
