import Patchwork.Path

/-!
# Paths and their texts

The text of a path leads back to the path, and every name of a path that a text
gives says something and has no slash.  A name with a suffix is cut where its last
point is, so two names with different suffixes differ.
-/

namespace Patchwork

namespace Text

theorem pieces_of_not_mem {separator : Char} {chars : List Char} (hchars : separator ∉ chars) :
    pieces separator chars = [chars] := by
  induction chars with
  | nil => rfl
  | cons char rest ih =>
    have hchar : (char == separator) = false :=
      beq_eq_false_iff_ne.mpr fun hsame => hchars (hsame ▸ List.mem_cons_self)
    rw [pieces, hchar, ih fun hmem => hchars (List.mem_cons_of_mem _ hmem)]
    rfl

theorem pieces_append {separator : Char} {chars : List Char} (hchars : separator ∉ chars)
    (rest : List Char) :
    pieces separator (chars ++ separator :: rest) = chars :: pieces separator rest := by
  induction chars with
  | nil => simp [pieces]
  | cons char chars ih =>
    have hchar : (char == separator) = false :=
      beq_eq_false_iff_ne.mpr fun hsame => hchars (hsame ▸ List.mem_cons_self)
    rw [List.cons_append, pieces, hchar, ih fun hmem => hchars (List.mem_cons_of_mem _ hmem)]
    rfl

theorem not_mem_of_mem_pieces {separator : Char} {chars piece : List Char}
    (hpiece : piece ∈ pieces separator chars) : separator ∉ piece := by
  induction chars generalizing piece with
  | nil =>
    rw [pieces, List.mem_singleton] at hpiece
    rw [hpiece]
    exact List.not_mem_nil
  | cons char rest ih =>
    rw [pieces] at hpiece
    split at hpiece
    · rcases List.mem_cons.mp hpiece with rfl | hrest
      · exact List.not_mem_nil
      · exact ih hrest
    · rename_i hchar
      have hne : separator ≠ char := fun hsame => hchar (by simp [hsame])
      split at hpiece
      · rw [List.mem_singleton] at hpiece
        simp [hpiece, hne]
      · rename_i first others hpieces
        rw [hpieces] at ih
        rcases List.mem_cons.mp hpiece with rfl | hothers
        · have hfirst := ih List.mem_cons_self
          simp [hne, hfirst]
        · exact ih (List.mem_cons_of_mem _ hothers)

end Text

namespace Path

/-- A name that a path may have: it says something and has no slash. -/
structure IsStep (name : String) : Prop where
  isFilled : isSaying name = true
  noSlash : '/' ∉ name.toList

/-- A path as texts give them, seen from where one stands. -/
structure Normal (path : Path) : Prop where
  unrooted : path.root = ""
  steps : ∀ name ∈ path.names, IsStep name

theorem normal_ofText {text : String} (hroot : (ofText text).isRooted = false) :
    (ofText text).Normal := by
  refine ⟨by simpa [isRooted] using hroot, fun name hname => ?_⟩
  obtain ⟨hmem, hfilled⟩ := List.mem_filter.mp hname
  obtain ⟨piece, hpiece, rfl⟩ := List.mem_map.mp hmem
  exact ⟨hfilled, by rw [String.toList_ofList]; exact Text.not_mem_of_mem_pieces hpiece⟩

theorem Normal.join {base path : Path} (hbase : base.Normal) (hpath : path.Normal) :
    (base.join path).Normal := by
  rw [Path.join, isRooted, hpath.unrooted]
  refine ⟨hbase.unrooted, fun name hname => ?_⟩
  rcases List.mem_append.mp hname with hname | hname
  · exact hbase.steps name hname
  · exact hpath.steps name hname

/-- A text seen from another one is normal unless it leads to a root. -/
theorem normal_join_ofText {base text : String}
    (hroot : ((ofText base).join (ofText text)).isRooted = false) :
    ((ofText base).join (ofText text)).Normal := by
  cases htext : (ofText text).isRooted with
  | true =>
    rw [join, htext, if_pos rfl, htext] at hroot
    exact Bool.noConfusion hroot
  | false =>
    have hbase : (ofText base).isRooted = false := by
      rw [join, htext, if_neg Bool.false_ne_true] at hroot
      exact hroot
    exact (normal_ofText hbase).join (normal_ofText htext)

theorem pieces_joined {names : List String} (hnames : ∀ name ∈ names, IsStep name)
    (hsome : names ≠ []) :
    (Text.pieces '/' (Text.joined "/" names).toList).map String.ofList = names := by
  induction names with
  | nil => exact absurd rfl hsome
  | cons first rest ih =>
    have hfirst := (hnames first List.mem_cons_self).noSlash
    cases rest with
    | nil => simp [Text.joined, Text.pieces_of_not_mem hfirst]
    | cons second rest =>
      have hrest := ih (fun name hname => hnames name (List.mem_cons_of_mem _ hname)) (by simp)
      have hjoined : (Text.joined "/" (first :: second :: rest)).toList =
          first.toList ++ '/' :: (Text.joined "/" (second :: rest)).toList := by
        simp [Text.joined, String.toList_append]
      rw [hjoined, Text.pieces_append hfirst, List.map_cons, hrest, String.ofList_toList]

theorem not_mem_joined {char : Char} {names : List String} (hslash : char ≠ '/')
    (hnames : ∀ name ∈ names, char ∉ name.toList) :
    char ∉ (Text.joined "/" names).toList := by
  induction names with
  | nil => exact List.not_mem_nil
  | cons first rest ih =>
    have hfirst := hnames first List.mem_cons_self
    have hrest := ih fun name hname => hnames name (List.mem_cons_of_mem _ hname)
    cases rest with
    | nil => simpa [Text.joined] using hfirst
    | cons second rest =>
      simp only [Text.joined, String.toList_append, List.mem_append, not_or]
      exact ⟨⟨hfirst, by simpa using hslash⟩, hrest⟩

theorem rootOf_eq_empty {chars : List Char} (hchars : chars.head? ≠ some '/') :
    rootOf chars = "" := by
  rw [rootOf]
  · rintro _ rfl
    exact hchars rfl
  · rintro _ rfl
    exact hchars rfl
  · rintro _ rfl
    exact hchars rfl

theorem head?_joined_ne_slash {first : String} (hfirst : IsStep first) (rest : List String) :
    (Text.joined "/" (first :: rest)).toList.head? ≠ some '/' := by
  have hsome : first.toList ≠ [] := by
    intro hnil
    have hempty : first = "" := String.toList_eq_nil_iff.mp hnil
    have hfilled := hfirst.isFilled
    rw [hempty] at hfilled
    exact absurd hfilled (by decide)
  obtain ⟨char, others, hchars⟩ := List.exists_cons_of_ne_nil hsome
  have hslash : char ≠ '/' := fun hchar =>
    hfirst.noSlash (by rw [hchars, hchar]; exact List.mem_cons_self)
  cases rest with
  | nil => simp [Text.joined, hchars, hslash]
  | cons second rest => simp [Text.joined, String.toList_append, hchars, hslash]

/-- The text of a path leads back to it. -/
theorem Normal.ofText_eq {path : Path} (hpath : path.Normal) : ofText path.text = path := by
  obtain ⟨root, names⟩ := path
  obtain ⟨hroot, hsteps⟩ := hpath
  simp only at hroot hsteps
  subst hroot
  cases names with
  | nil => rfl
  | cons first rest =>
    have htext : text ⟨"", first :: rest⟩ = Text.joined "/" (first :: rest) := by
      simp [text]
    have hfirst := hsteps first List.mem_cons_self
    rw [htext, ofText, rootOf_eq_empty (head?_joined_ne_slash hfirst rest),
      pieces_joined hsteps (by simp)]
    have hall : (first :: rest).filter isSaying = first :: rest :=
      List.filter_eq_self.mpr fun name hname => (hsteps name hname).isFilled
    rw [hall]

/-! ## Suffixes -/

/-- A name before its suffix. -/
def stem (name : String) : String :=
  (cutSuffix name).1

/-- A name has no suffix, or it is cut at its last point with something on both
sides. -/
theorem cutSuffix_cases (name : String) :
    cutSuffix name = (name, "") ∨ ∃ front ending : List Char, front ≠ [] ∧ ending ≠ [] ∧
      '.' ∉ ending ∧ name.toList = front ++ '.' :: ending ∧
        cutSuffix name = (String.ofList front, String.ofList ('.' :: ending)) := by
  have hsplit := List.takeWhile_append_dropWhile (p := (· != '.')) (l := name.toList.reverse)
  have hstop := List.head?_dropWhile_not (· != '.') name.toList.reverse
  have hpoints : '.' ∉ name.toList.reverse.takeWhile (· != '.') := fun hpoint =>
    absurd (List.all_eq_true.mp List.all_takeWhile '.' hpoint) (by simp)
  rw [cutSuffix]
  generalize name.toList.reverse.takeWhile (· != '.') = ending at hsplit hpoints ⊢
  cases hdrop : name.toList.reverse.dropWhile (· != '.') with
  | nil => exact .inl rfl
  | cons point front =>
    rw [hdrop] at hsplit hstop
    obtain rfl : point = '.' := by simpa using hstop
    by_cases hempty : front.isEmpty || ending.isEmpty
    · exact .inl (by simp only [hempty, if_true])
    · simp only [hempty]
      simp only [Bool.or_eq_true, List.isEmpty_iff, not_or] at hempty
      refine .inr ⟨front.reverse, ending.reverse, by simpa using hempty.1, by simpa using hempty.2,
        by simpa using hpoints, ?_, rfl⟩
      have hname := congrArg List.reverse hsplit
      simpa using hname.symm

theorem cutSuffix_append {front ending : List Char} (hfront : front ≠ []) (hending : ending ≠ [])
    (hpoint : '.' ∉ ending) :
    cutSuffix (String.ofList (front ++ '.' :: ending)) =
      (String.ofList front, String.ofList ('.' :: ending)) := by
  have hplain : ∀ char ∈ ending.reverse, (char != '.') = true := by
    intro char hchar
    simp only [bne_iff_ne]
    rintro rfl
    exact hpoint (List.mem_reverse.mp hchar)
  have htake : (ending.reverse ++ '.' :: front.reverse).takeWhile (· != '.') = ending.reverse := by
    rw [List.takeWhile_append_of_pos hplain]
    simp
  have hdrop : (ending.reverse ++ '.' :: front.reverse).dropWhile (· != '.') =
      '.' :: front.reverse := by
    rw [List.dropWhile_append_of_pos hplain]
    simp
  simp [cutSuffix, htake, hdrop, hfront, hending]

theorem stem_append_suffix (name : String) : stem name ++ (cutSuffix name).2 = name := by
  obtain hcut | ⟨front, ending, -, -, -, hname, hcut⟩ := cutSuffix_cases name
  · rw [stem, hcut, String.append_empty]
  · rw [stem, hcut, ← String.ofList_append, ← hname, String.ofList_toList]

/-- A point with something after it and no other point. -/
def IsSuffix (suffix : String) : Prop :=
  ∃ ending, suffix.toList = '.' :: ending ∧ ending ≠ [] ∧ '.' ∉ ending

section

variable {name suffix : String}

theorem stem_toList_ne_nil (hname : (cutSuffix name).2 ≠ "") : (stem name).toList ≠ [] := by
  obtain hcut | ⟨front, ending, hfront, -, -, -, hcut⟩ := cutSuffix_cases name
  · exact absurd (congrArg Prod.snd hcut) hname
  · rw [stem, hcut, String.toList_ofList]
    exact hfront

/-- Another suffix in place of the one a name has. -/
theorem cutSuffix_stem_append (hname : (cutSuffix name).2 ≠ "") (hsuffix : IsSuffix suffix) :
    cutSuffix (stem name ++ suffix) = (stem name, suffix) := by
  obtain ⟨ending, hchars, hending, hpoint⟩ := hsuffix
  have htext : stem name ++ suffix = String.ofList ((stem name).toList ++ '.' :: ending) := by
    rw [← hchars, String.ofList_append, String.ofList_toList, String.ofList_toList]
  rw [htext, cutSuffix_append (stem_toList_ne_nil hname) hending hpoint, String.ofList_toList,
    ← hchars, String.ofList_toList]

theorem mem_of_mem_stem {char : Char} (hchar : char ∈ (stem name).toList) :
    char ∈ name.toList := by
  rw [← stem_append_suffix name, String.toList_append]
  exact List.mem_append_left _ hchar

end

end Path

end Patchwork
