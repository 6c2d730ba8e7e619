/-!
# Searching in texts

The first occurrence of one text in another, the pieces between separators, the
pieces put together again, and texts padded and put in order.  Everything works
on lists of characters, so lengths and positions count code points.
-/

namespace Patchwork.Text

/-- The characters before and after the first occurrence of `mark`. -/
def breakOn? (mark : List Char) : List Char → Option (List Char × List Char)
  | [] => if mark.isEmpty then some ([], []) else none
  | char :: rest =>
    if mark.isPrefixOf (char :: rest) then some ([], (char :: rest).drop mark.length)
    else (breakOn? mark rest).map fun (before, after) => (char :: before, after)

/-- Whether `part` occurs in `chars`. -/
def occursIn (part chars : List Char) : Bool :=
  (breakOn? part chars).isSome

/-- Whether the text `part` occurs in `text`. -/
def contains (text part : String) : Bool :=
  occursIn part.toList text.toList

/-- The pieces between the occurrences of a separator; at least one. -/
def pieces (separator : Char) : List Char → List (List Char)
  | [] => [[]]
  | char :: rest =>
    if char == separator then [] :: pieces separator rest
    else
      match pieces separator rest with
      | [] => [[char]]
      | first :: others => (char :: first) :: others

/-- The texts with `separator` between each two. -/
def joined (separator : String) : List String → String
  | [] => ""
  | [last] => last
  | first :: rest => first ++ separator ++ joined separator rest

/-- The text with every comma replaced by a point. -/
def commasToPoints (text : String) : String :=
  String.ofList (text.toList.map fun char => if char == ',' then '.' else char)

/-- The text padded with blanks at the end up to a width. -/
def padRight (width : Nat) (text : String) : String :=
  text ++ String.ofList (List.replicate (width - text.length) ' ')

/-- The text padded with blanks in front up to a width. -/
def padLeft (width : Nat) (text : String) : String :=
  String.ofList (List.replicate (width - text.length) ' ') ++ text

/-- The text with ASCII capitals made small. -/
def lowerCase (text : String) : String :=
  String.ofList (text.toList.map Char.toLower)

/-- The capital of a letter, if it is an ASCII letter: the dotless i and the long
s have such a capital as well. -/
def capital (char : Char) : Char :=
  if char == 'ı' then 'I' else if char == 'ſ' then 'S' else char.toUpper

/-- The text with ASCII capitals for all letters that have one. -/
def upperCase (text : String) : String :=
  String.ofList (text.toList.map capital)

/-- The texts in ascending order. -/
def sorted (texts : List String) : List String :=
  texts.mergeSort fun left right => decide (left ≤ right)

/-- A successful search splits the text around the mark. -/
theorem eq_append_of_breakOn? {mark chars before after : List Char}
    (hbreak : breakOn? mark chars = some (before, after)) :
    chars = before ++ mark ++ after := by
  induction chars generalizing before with
  | nil =>
    simp only [breakOn?] at hbreak
    split at hbreak <;> simp_all
  | cons char rest ih =>
    simp only [breakOn?] at hbreak
    split at hbreak
    · rename_i hfront
      have hfront' : mark <+: char :: rest := by simpa using hfront
      obtain ⟨tail, htail⟩ := hfront'
      simp only [Option.some.injEq, Prod.mk.injEq] at hbreak
      obtain ⟨rfl, rfl⟩ := hbreak
      simp [← htail]
    · simp only [Option.map_eq_some_iff] at hbreak
      obtain ⟨⟨front, back⟩, hrest, heq⟩ := hbreak
      simp only [Prod.mk.injEq] at heq
      obtain ⟨rfl, rfl⟩ := heq
      simp [ih hrest]

theorem pieces_ne_nil (separator : Char) (chars : List Char) :
    pieces separator chars ≠ [] := by
  cases chars with
  | nil => simp [pieces]
  | cons char rest =>
    simp only [pieces]
    split
    · simp
    · split <;> simp

theorem occursIn_iff {mark chars : List Char} : occursIn mark chars = true ↔ mark <:+: chars := by
  constructor
  · intro hoccurs
    obtain ⟨⟨before, after⟩, hbreak⟩ := Option.isSome_iff_exists.mp hoccurs
    exact ⟨before, after, (eq_append_of_breakOn? hbreak).symm⟩
  · rintro ⟨before, after, rfl⟩
    rw [occursIn]
    induction before with
    | nil =>
      cases mark with
      | nil => cases after <;> rfl
      | cons first mark => simp [breakOn?, List.isPrefixOf_iff_prefix]
    | cons first before ih =>
      rw [List.cons_append, List.cons_append, breakOn?]
      split
      · rfl
      · rw [Option.isSome_map]
        exact ih

/-- What occurs in a text does so on one side of a character it does not contain. -/
theorem infix_of_gap {mark front back : List Char} {gap : Char} (hgap : gap ∉ mark)
    (hmark : mark <:+: front ++ gap :: back) : mark <:+: front ∨ mark <:+: back := by
  obtain ⟨before, after, hall⟩ := hmark
  rw [List.append_assoc] at hall
  obtain ⟨middle, rfl, hrest⟩ | ⟨middle, hfront, hrest⟩ := List.append_eq_append_iff.mp hall
  · obtain ⟨inner, rfl, -⟩ | ⟨inner, rfl, hlast⟩ := List.append_eq_append_iff.mp hrest
    · exact .inl ⟨before, inner, by simp⟩
    · cases inner with
      | nil => exact .inl ⟨before, [], by simp⟩
      | cons other inner =>
        cases hlast
        exact absurd (by simp) hgap
  · cases middle with
    | nil =>
      cases mark with
      | nil => exact .inl (List.nil_infix)
      | cons other mark =>
        cases hrest
        exact absurd List.mem_cons_self hgap
    | cons other middle =>
      cases hrest
      exact .inr ⟨middle, after, by simp⟩

/-- A search stops at the first occurrence. -/
theorem breakOn?_of_first {mark front : List Char} (hfirst : ¬ mark <:+: front ++ mark.dropLast)
    (back : List Char) : breakOn? mark (front ++ (mark ++ back)) = some (front, back) := by
  induction front with
  | nil =>
    have hprefix : mark.isPrefixOf (mark ++ back) = true := by simp
    cases hmark : mark ++ back with
    | nil =>
      obtain ⟨rfl, rfl⟩ := List.append_eq_nil_iff.mp hmark
      rfl
    | cons char rest =>
      rw [hmark] at hprefix
      rw [List.nil_append, breakOn?, if_pos hprefix, ← hmark, List.drop_left]
  | cons char front ih =>
    have hnot : ¬ mark.isPrefixOf (char :: (front ++ (mark ++ back))) = true := by
      intro hprefix
      refine hfirst (List.IsPrefix.isInfix (List.prefix_of_prefix_length_le
        (List.isPrefixOf_iff_prefix.mp hprefix) ?_ ?_))
      · refine (List.prefix_append_right_inj (char :: front)).mpr ?_
        exact (List.dropLast_prefix mark).trans (List.prefix_append mark back)
      · simp only [List.length_append, List.length_cons, List.length_dropLast]
        omega
    have hrest := ih fun hinside => hfirst (hinside.trans (List.suffix_cons char _).isInfix)
    rw [List.cons_append, breakOn?, if_neg hnot, hrest]
    rfl

end Patchwork.Text
