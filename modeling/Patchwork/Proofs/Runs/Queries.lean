import Patchwork.Proofs.Runs.LoadedMods
import Patchwork.Proofs.Workspace.Paths

/-!
# Queries for one record and for all of them

A query for the first match gives the head of what the query for all matches gives, and
it asks its condition about no record behind that one.  A selector stands for the mods it
lists, in load order, whatever else its text has.
-/

namespace Patchwork

/-! ## Pieces between separators -/

namespace Text

variable {separator : Char} {chars piece : List Char}

theorem pieces_append_pieces (separator : Char) (front rest : List Char) :
    pieces separator (front ++ separator :: rest) =
      pieces separator front ++ pieces separator rest := by
  induction front with
  | nil => simp [pieces]
  | cons char front ih =>
    rw [List.cons_append, pieces, ih, pieces]
    split
    · rfl
    · obtain ⟨first, others, hpieces⟩ := List.exists_cons_of_ne_nil (pieces_ne_nil separator front)
      rw [hpieces]
      rfl

theorem infix_of_mem_pieces (hpiece : piece ∈ pieces separator chars) :
    separator :: piece ++ [separator] <:+: separator :: chars ++ [separator] := by
  induction hlength : chars.length using Nat.strongRecOn generalizing chars with
  | _ length ih =>
    by_cases hmem : separator ∈ chars
    · obtain ⟨front, rest, rfl, hfront⟩ := List.eq_append_cons_of_mem hmem
      rw [pieces_append hfront] at hpiece
      rcases List.mem_cons.mp hpiece with rfl | hrest
      · exact ⟨[], rest ++ [separator], by simp⟩
      · have hshorter : rest.length < length := by
          rw [← hlength, List.length_append, List.length_cons]
          omega
        refine (ih rest.length hshorter hrest rfl).trans ⟨separator :: front, [], ?_⟩
        simp
    · rw [pieces_of_not_mem hmem, List.mem_singleton] at hpiece
      subst hpiece
      exact List.infix_rfl

/-- The pieces of a text are what stands, without a separator in it, between two
separators, before the first one or behind the last one. -/
theorem mem_pieces :
    piece ∈ pieces separator chars ↔
      separator ∉ piece ∧
        separator :: piece ++ [separator] <:+: separator :: chars ++ [separator] := by
  refine ⟨fun hpiece => ⟨not_mem_of_mem_pieces hpiece, infix_of_mem_pieces hpiece⟩, ?_⟩
  rintro ⟨hnot, before, after, htext⟩
  have hleft : pieces separator (separator :: chars ++ [separator]) =
      [] :: pieces separator chars ++ [[]] := by
    have houter := pieces_append_pieces separator [] (chars ++ [separator])
    have hinner := pieces_append_pieces separator chars []
    rw [List.nil_append] at houter
    rw [List.cons_append, houter, hinner]
    rfl
  have hright : pieces separator (before ++ (separator :: piece ++ [separator]) ++ after) =
      pieces separator before ++ piece :: pieces separator after := by
    have hfirst : before ++ (separator :: piece ++ [separator]) ++ after =
        before ++ separator :: (piece ++ separator :: after) := by simp
    rw [hfirst, pieces_append_pieces, pieces_append hnot]
  rw [htext, hleft] at hright
  -- The first and the last of these pieces are empty and not pieces of the text itself.
  obtain ⟨first, others, hbefore⟩ := List.exists_cons_of_ne_nil (pieces_ne_nil separator before)
  obtain ⟨others', last, hafter⟩ :=
    (List.eq_nil_or_concat' (pieces separator after)).resolve_left (pieces_ne_nil separator after)
  rw [hbefore, hafter] at hright
  have hmiddle : pieces separator chars = others ++ piece :: others' := by
    have hinner : pieces separator chars ++ [[]] = (others ++ piece :: others') ++ [last] := by
      simpa using (List.cons.inj hright).2
    exact (List.append_inj' hinner rfl).1
  rw [hmiddle]
  exact List.mem_append_right _ List.mem_cons_self

end Text

/-! ## Mods that a selector stands for -/

namespace Repository

variable {selector left right name : String}

/-- A selector lists a name if the name stands between two of its commas, before the first
one or behind the last one, with nothing but blanks around it. -/
def Lists (selector name : String) : Prop :=
  name ≠ "" ∧ ∃ piece, ',' ∉ piece ∧ ',' :: piece ++ [','] <:+: ',' :: selector.toList ++ [','] ∧
    Text.trim (String.ofList piece) = name

theorem mem_selectedNames : name ∈ selectedNames selector ↔ Lists selector name := by
  simp only [selectedNames, mem_distinct, List.mem_filter, List.mem_map, bne_iff_ne, Lists,
    Text.mem_pieces, Text.trim, String.toList_ofList, and_assoc]
  exact and_comm

instance : Decidable (Lists selector name) :=
  decidable_of_iff _ mem_selectedNames

example : Lists " base ,extra," "base" ∧ ¬ Lists "base.mod" "base" := by decide

theorem select_of_all (hall : Text.trim selector = "all") (repository : Repository) :
    (repository.select selector).1 = repository.list := by
  rw [select, hall]
  rfl

theorem select_of_lists (hlist : Text.trim selector ≠ "all") (repository : Repository) :
    (repository.select selector).1 =
      (repository.mods.filter fun entry => Lists selector entry.1).map Prod.snd := by
  rw [select, if_neg (by simpa using hlist)]
  refine congrArg _ (List.filter_congr fun entry _ => ?_)
  rw [Bool.eq_iff_iff, List.contains_iff_mem, mem_selectedNames, decide_eq_true_iff]

/-- Selectors that list the same loaded mods stand for the same mods. -/
theorem select_congr {repository : Repository} (hleft : Text.trim left ≠ "all")
    (hright : Text.trim right ≠ "all")
    (hsame : ∀ name ∈ repository.names, Lists left name ↔ Lists right name) :
    (repository.select left).1 = (repository.select right).1 := by
  rw [select_of_lists hleft, select_of_lists hright]
  refine congrArg _ (List.filter_congr fun entry hentry => ?_)
  exact decide_eq_decide.mpr (hsame entry.1 (List.mem_map_of_mem hentry))

end Repository

/-! ## The first match and all matches -/

section

variable {verdict : Record → Except Fault Bool}

/-- Whether a verdict accepts a record. -/
def accepts (verdict : Record → Except Fault Bool) (entry : String × Record) : Bool :=
  match verdict entry.2 with
  | .ok accepted => accepted
  | .error _ => false

/-- The fault of the first record on which there is no verdict. -/
def firstFault? (verdict : Record → Except Fault Bool) (entries : List (String × Record)) :
    Option Fault :=
  entries.findSome? fun entry =>
    match verdict entry.2 with
    | .ok _ => none
    | .error fault => some fault

/-- A result, unless there is a fault. -/
def resultUnless {Result : Type} (fault? : Option Fault) (result : Result) :
    Except Fault Result :=
  match fault? with
  | some fault => .error fault
  | none => .ok result

theorem keptContent_allMatches (entries : List (String × Record)) :
    keptContent .allMatches verdict entries =
      resultUnless (firstFault? verdict entries) (entries.filter (accepts verdict)) := by
  induction entries with
  | nil => rfl
  | cons entry rest ih =>
    rw [keptContent, firstFault?, List.findSome?_cons, List.filter_cons, accepts, ih]
    cases verdict entry.2 with
    | error fault => rfl
    | ok accepted =>
      dsimp only
      rw [← firstFault?]
      cases accepted <;> cases firstFault? verdict rest <;> rfl

theorem keptContent_firstMatch (entries : List (String × Record)) :
    keptContent .firstMatch verdict entries =
      resultUnless (firstFault? verdict (entries.takeWhile fun entry => !accepts verdict entry))
        (entries.find? (accepts verdict)).toList := by
  induction entries with
  | nil => rfl
  | cons entry rest ih =>
    rw [keptContent, List.takeWhile_cons, List.find?_cons, accepts, ih]
    cases hverdict : verdict entry.2 with
    | error fault =>
      simp only [Bool.not_false, if_true, firstFault?, List.findSome?_cons, hverdict]
      rfl
    | ok accepted =>
      cases accepted with
      | true => rfl
      | false =>
        simp only [Bool.not_false, if_true, firstFault?, List.findSome?_cons, hverdict]
        rfl

/-- If all matches can be told, the first match is the first of them. -/
theorem keptContent_firstMatch_of_allMatches {entries kept : List (String × Record)}
    (hall : keptContent .allMatches verdict entries = .ok kept) :
    keptContent .firstMatch verdict entries = .ok kept.head?.toList := by
  rw [keptContent_allMatches] at hall
  cases hfault : firstFault? verdict entries with
  | some fault =>
    rw [hfault] at hall
    cases hall
  | none =>
    rw [hfault] at hall
    cases hall
    have hbefore : firstFault? verdict
        (entries.takeWhile fun entry => !accepts verdict entry) = none :=
      List.findSome?_eq_none_iff.mpr fun entry hentry =>
        List.findSome?_eq_none_iff.mp hfault entry ((List.takeWhile_sublist _).mem hentry)
    rw [keptContent_firstMatch, hbefore, List.head?_filter]
    rfl

end

/-- The content of the group that a query stands for, or the fault of its condition. -/
def Repository.resolved (repository : Repository) (selector kind : String)
    (condition : RecordRef → Eval Bool) (mode : SelectionMode) (world : World) :
    Except Fault (List (String × Record)) :=
  let ran := (resolveGroup repository selector kind condition mode).run world
  ran.1.map (Group.content ran.2.pool)

/-- Whether a record is marked as sharp; there is no verdict on a record that does not
say so. -/
def sharpness (record : Record) : Except Fault Bool :=
  match record.fields.get? (.str "sharp") with
  | some (.bool sharp) => .ok sharp
  | _ => .error (.evaluation (.noField "sharp" record.label))

/-- The condition that a record is sharp. -/
def isSharp (ref : RecordRef) : Eval Bool := do
  Eval.settle (sharpness (← Eval.record ref))

theorem judges_isSharp : Judges isSharp sharpness := by
  intro ref world
  have hrun : (isSharp ref).run world = (sharpness (world.pool.get ref), world) := by
    change (Eval.settle (sharpness (world.pool.get ref))).run world = _
    cases sharpness (world.pool.get ref) <;> rfl
  rw [hrun]
  exact ⟨rfl, Pool.KeptIn.refl _⟩

/-- A blunt and a sharp weapon of one mod, and one of another mod of which neither is
said. -/
def grindstone : Pool × Repository :=
  let base := Mod.create {} "base"
    [{ id := "1-base", kind := "WEAPON", isNew := true, fields := [(.str "sharp", .bool false)] },
      { id := "2-base", kind := "WEAPON", isNew := true, fields := [(.str "sharp", .bool true)] }]
    [] []
  let extra := Mod.create base.1 "extra"
    [{ id := "3-extra", kind := "WEAPON", isNew := true }] [] []
  (extra.1, ⟨[("base", base.2), ("extra", extra.2)]⟩)

end Patchwork
