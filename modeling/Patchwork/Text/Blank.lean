/-!
# Blank characters

The white space characters of every script, the separators U+001C to U+001F
and U+0085 included, and the removal of them from both ends of a text.
-/

namespace Patchwork.Text

/-- A set of code points, as closed ranges in ascending order. -/
abbrev CodeRanges := List (Nat × Nat)

/-- Whether a code point lies in one of the ranges. -/
def CodeRanges.contain : CodeRanges → Nat → Bool
  | [], _ => false
  | (first, last) :: rest, code =>
    if code < first then false
    else if code ≤ last then true
    else CodeRanges.contain rest code

/-- Ranges of the white space characters. -/
def blankRanges : CodeRanges :=
  [(9, 13), (28, 32), (133, 133), (160, 160), (5760, 5760), (8192, 8202), (8232, 8233),
   (8239, 8239), (8287, 8287), (12288, 12288)]

/-- A white space character. -/
def isBlank (char : Char) : Bool :=
  blankRanges.contain char.toNat

/-- The characters without the blanks at the front. -/
def trimLeft (chars : List Char) : List Char :=
  chars.dropWhile isBlank

/-- The characters without the blanks at the end. -/
def trimRight (chars : List Char) : List Char :=
  (chars.reverse.dropWhile isBlank).reverse

/-- The characters without the blanks at both ends. -/
def trimChars (chars : List Char) : List Char :=
  trimRight (trimLeft chars)

/-- A text without the blanks at both ends. -/
def trim (text : String) : String :=
  String.ofList (trimChars text.toList)

@[simp]
theorem trimLeft_nil : trimLeft [] = [] := rfl

@[simp]
theorem trimRight_nil : trimRight [] = [] := rfl

@[simp]
theorem trimChars_nil : trimChars [] = [] := rfl

theorem trimLeft_cons_of_not_isBlank {char : Char} {rest : List Char}
    (hchar : isBlank char = false) : trimLeft (char :: rest) = char :: rest := by
  simp [trimLeft, hchar]

theorem trimRight_concat_of_not_isBlank {char : Char} {front : List Char}
    (hchar : isBlank char = false) : trimRight (front ++ [char]) = front ++ [char] := by
  simp [trimRight, hchar]

theorem trimLeft_append_of_isBlank {blanks : List Char} (hblanks : ∀ char ∈ blanks, isBlank char = true)
    (rest : List Char) : trimLeft (blanks ++ rest) = trimLeft rest :=
  List.dropWhile_append_of_pos hblanks

theorem trimRight_append_of_not_isBlank {mark : Char} (hmark : isBlank mark = false)
    (front behind : List Char) :
    trimRight (front ++ mark :: behind) = front ++ mark :: trimRight behind := by
  have hreverse : (front ++ mark :: behind).reverse =
      behind.reverse ++ mark :: front.reverse := by simp
  rw [trimRight, hreverse, List.dropWhile_append]
  split
  · rename_i hempty
    have hnone : trimRight behind = [] := by
      rw [trimRight, List.isEmpty_iff.mp hempty, List.reverse_nil]
    simp [hmark, hnone]
  · simp [trimRight]

theorem trimRight_of_isBlank {blanks : List Char} (hblanks : ∀ char ∈ blanks, isBlank char = true) :
    trimRight blanks = [] := by
  have hreverse : ∀ char ∈ blanks.reverse, isBlank char = true :=
    fun char hchar => hblanks char (List.mem_reverse.mp hchar)
  rw [trimRight, ← List.append_nil blanks.reverse, List.dropWhile_append_of_pos hreverse]
  rfl

/-- A text is what is left of it without the blanks at its ends, with blanks around it. -/
theorem exists_trimChars (chars : List Char) :
    ∃ blanks after, (∀ char ∈ blanks, isBlank char = true) ∧
      (∀ char ∈ after, isBlank char = true) ∧ chars = blanks ++ (trimChars chars ++ after) := by
  have htake : ∀ chars : List Char, ∀ char ∈ chars.takeWhile isBlank, isBlank char = true :=
    fun chars char hchar => List.all_eq_true.mp List.all_takeWhile char hchar
  refine ⟨chars.takeWhile isBlank, ((trimLeft chars).reverse.takeWhile isBlank).reverse,
    htake chars, fun char hchar => htake _ char (List.mem_reverse.mp hchar), ?_⟩
  have hright : trimRight (trimLeft chars) ++
      ((trimLeft chars).reverse.takeWhile isBlank).reverse = trimLeft chars := by
    rw [trimRight, ← List.reverse_append, List.takeWhile_append_dropWhile, List.reverse_reverse]
  rw [trimChars, hright, trimLeft, List.takeWhile_append_dropWhile]

/-- A text is blank, or there are blanks in front of its first other character. -/
theorem blank_or_exists_mark (chars : List Char) :
    (∀ char ∈ chars, isBlank char = true) ∨ ∃ blanks mark behind,
      (∀ char ∈ blanks, isBlank char = true) ∧ isBlank mark = false ∧
        chars = blanks ++ mark :: behind := by
  induction chars with
  | nil => exact .inl nofun
  | cons char rest ih =>
    cases hchar : isBlank char with
    | false => exact .inr ⟨[], char, rest, nofun, hchar, rfl⟩
    | true =>
      obtain hblank | ⟨blanks, mark, behind, hblanks, hmark, rfl⟩ := ih
      · exact .inl (List.forall_mem_cons.mpr ⟨hchar, hblank⟩)
      · exact .inr ⟨char :: blanks, mark, behind, List.forall_mem_cons.mpr ⟨hchar, hblanks⟩, hmark, rfl⟩

theorem trimRight_trimRight (chars : List Char) : trimRight (trimRight chars) = trimRight chars := by
  obtain hblank | ⟨blanks, mark, behind, hblanks, hmark, hreverse⟩ :=
    blank_or_exists_mark chars.reverse
  · rw [trimRight_of_isBlank fun char hchar => hblank char (List.mem_reverse.mpr hchar)]
    rfl
  · have hchars : chars = behind.reverse ++ mark :: blanks.reverse := by
      rw [← List.reverse_reverse chars, hreverse]
      simp
    rw [hchars, trimRight_append_of_not_isBlank hmark,
      trimRight_of_isBlank fun char hchar => hblanks char (List.mem_reverse.mp hchar),
      trimRight_concat_of_not_isBlank hmark]

/-- It does not matter at which end blanks are taken first. -/
theorem trimChars_trimRight (chars : List Char) : trimChars (trimRight chars) = trimChars chars := by
  obtain hblank | ⟨blanks, mark, behind, hblanks, hmark, rfl⟩ := blank_or_exists_mark chars
  · have hleft : trimLeft chars = [] := by
      simpa using trimLeft_append_of_isBlank hblank []
    rw [trimRight_of_isBlank hblank, trimChars, trimChars, hleft]
    rfl
  · have hright : trimRight (mark :: trimRight behind) = trimRight (mark :: behind) :=
      (trimRight_append_of_not_isBlank hmark [] _).trans
        ((congrArg (mark :: ·) (trimRight_trimRight behind)).trans
          (trimRight_append_of_not_isBlank hmark [] behind).symm)
    rw [trimRight_append_of_not_isBlank hmark, trimChars, trimChars,
      trimLeft_append_of_isBlank hblanks, trimLeft_append_of_isBlank hblanks,
      trimLeft_cons_of_not_isBlank hmark, trimLeft_cons_of_not_isBlank hmark, hright]

/-- There are no blanks left to take. -/
theorem trimChars_trimChars (chars : List Char) : trimChars (trimChars chars) = trimChars chars := by
  have hleft : trimLeft (trimLeft chars) = trimLeft chars := by
    obtain hblank | ⟨blanks, mark, behind, hblanks, hmark, rfl⟩ := blank_or_exists_mark chars
    · have hnone : trimLeft chars = [] := by
        simpa using trimLeft_append_of_isBlank hblank []
      rw [hnone]
      rfl
    · rw [trimLeft_append_of_isBlank hblanks, trimLeft_cons_of_not_isBlank hmark,
        trimLeft_cons_of_not_isBlank hmark]
  have hright : trimChars (trimChars chars) = trimChars (trimLeft chars) :=
    trimChars_trimRight (trimLeft chars)
  rw [hright, trimChars, hleft, ← trimChars]

end Patchwork.Text
