import Patchwork.Proofs.Expression.Scanning
import Patchwork.Proofs.Token.Cutting

/-!
# Tokens with blanks between them

Only one character matters after a lexeme, and a blank never makes it longer.  So the
tokens of a text are scanned again, one for one, from the text that has one blank between
each two of them, whatever stood there before.
-/

namespace Patchwork

namespace Scan

/-- The texts of the tokens before the end, with one blank between each two. -/
def spaced (tokens : List Token) : String :=
  Text.joined " " ((tokens.filter fun token => !token.isFinish).map Token.text)

/-- The tokens of a cut spell the spaced text. -/
theorem Cut.spells_spaced {previous : Option TokenKind} {column : Nat} {chars : List Char}
    {tokens : List Token} (hcut : Cut previous column chars tokens) :
    ∃ words last, tokens.map Token.word = words ++ [⟨.finish, ""⟩] ∧
      Spells previous (spaced tokens).toList words last [] := by
  induction hcut with
  | @finish previous => exact ⟨[], previous, rfl, .done previous []⟩
  | @token previous column blanks chars rest token tokens _ hstands _ ih =>
    obtain ⟨words, last, hwords, hspells⟩ := ih
    have hfinish := hstands.isFinish
    refine ⟨token.word :: words, last, by rw [List.map_cons, hwords, List.cons_append], ?_⟩
    rw [spaced] at hspells ⊢
    simp only [List.filter_cons, hfinish, Bool.not_false, if_true, List.map_cons]
    cases hothers : (tokens.filter fun token => !token.isFinish).map Token.text with
    | nil =>
      rw [hothers] at hspells
      have hnothing : (Text.joined " " []).toList = [] := rfl
      rw [hnothing] at hspells
      have hlexeme : Lexeme previous token.kind token.text.toList [] :=
        hstands.lexeme.apart (by simp)
      have hlast := Spells.lexeme rfl hlexeme hspells
      rwa [List.append_nil] at hlast
    | cons next others =>
      rw [hothers] at hspells
      have hjoined : Text.joined " " (token.text :: next :: others) =
          token.text ++ " " ++ Text.joined " " (next :: others) := rfl
      have hlexeme : Lexeme previous token.kind token.text.toList
          (' ' :: (Text.joined " " (next :: others)).toList) :=
        hstands.lexeme.apart (by simp)
      have htoken := Spells.lexeme rfl hlexeme (.blank (by decide) hspells)
      rw [hjoined, String.toList_append, String.toList_append, List.append_assoc]
      exact htoken

/-- Wherever an operand may start, a text is spelled in front of a blank as on its own. -/
theorem Cut.spells_in_place {previous : Option TokenKind} {column : Nat} {chars : List Char}
    {tokens : List Token} (hcut : Cut previous column chars tokens) {place : Option TokenKind}
    (hplace : operandMayStart place = operandMayStart previous) (rest : List Char) :
    ∃ words last, tokens.map Token.word = words ++ [⟨.finish, ""⟩] ∧
      Spells place (chars ++ ' ' :: rest) words last (' ' :: rest) := by
  induction hcut generalizing place with
  | @finish previous column blanks hblanks =>
    exact ⟨[], place, rfl, .blanks hblanks (.done _ _)⟩
  | @token previous column blanks chars behind token tokens hblanks hstands _ ih =>
    obtain ⟨words, last, hwords, hspells⟩ := ih rfl
    have hlexeme : Lexeme place token.kind token.text.toList (behind ++ ' ' :: rest) :=
      (hstands.lexeme.append (by simp)).after hplace
    refine ⟨token.word :: words, last, by rw [List.map_cons, hwords, List.cons_append], ?_⟩
    rw [hstands.split, List.append_assoc, List.append_assoc]
    exact .blanks hblanks (.lexeme rfl hlexeme hspells)

/-- Wherever an operand may start, the end of a line is spelled as a text on its own. -/
theorem Cut.spells_last {previous : Option TokenKind} {column : Nat} {chars : List Char}
    {tokens : List Token} (hcut : Cut previous column chars tokens) {place : Option TokenKind}
    (hplace : operandMayStart place = operandMayStart previous) :
    ∃ words last, tokens.map Token.word = words ++ [⟨.finish, ""⟩] ∧
      Spells place chars words last [] := by
  induction hcut generalizing place with
  | @finish previous column blanks hblanks =>
    have hspells : Spells place (blanks ++ []) [] place [] := .blanks hblanks (.done _ _)
    rw [List.append_nil] at hspells
    exact ⟨[], place, rfl, hspells⟩
  | @token previous column blanks chars behind token tokens hblanks hstands _ ih =>
    obtain ⟨words, last, hwords, hspells⟩ := ih rfl
    refine ⟨token.word :: words, last, by rw [List.map_cons, hwords, List.cons_append], ?_⟩
    rw [hstands.split]
    exact .blanks hblanks (.lexeme rfl (hstands.lexeme.after hplace) hspells)

/-- Putting one blank between the tokens of a text changes their columns and nothing else. -/
theorem complete_spaced {text : String} {tokens : List Token}
    (hcomplete : complete text = .ok tokens) :
    ∃ again, complete (spaced tokens) = .ok again ∧
      again.map (fun token => (token.kind, token.text, token.value)) =
        tokens.map fun token => (token.kind, token.text, token.value) := by
  obtain ⟨words, last, hwords, hspells⟩ := (cut_of_complete hcomplete).spells_spaced
  obtain ⟨again, column, hagain, hscan⟩ := ofText_of_spells hspells
  refine ⟨again ++ [⟨.finish, "", column⟩], by rw [complete, hscan], ?_⟩
  have hsame : List.map Token.word (again ++ [⟨.finish, "", column⟩]) =
      tokens.map Token.word := by
    rw [List.map_append, hagain, hwords]
    rfl
  -- The value of a token is read off its kind and its text.
  have hvalue : (fun token : Token => (token.kind, token.text, token.value)) =
      (fun word : Word => (word.kind, word.text, Token.value ⟨word.kind, word.text, 0⟩)) ∘
        Token.word := rfl
  rw [hvalue, ← List.map_map, ← List.map_map, hsame]

/-- Blanks are put where none were and taken away where several were. -/
theorem complete_spaced_damage : ∃ tokens again : List Token,
    complete "damage  -2->-1" = .ok tokens ∧ spaced tokens = "damage - 2 -> -1" ∧
      complete "damage - 2 -> -1" = .ok again ∧
      again.map (fun token => (token.kind, token.text, token.value)) =
        tokens.map fun token => (token.kind, token.text, token.value) := by
  have hcomplete : complete "damage  -2->-1" = .ok [⟨.identifier, "damage", 0⟩,
      ⟨.operator, "-", 8⟩, ⟨.int 2, "2", 9⟩, ⟨.operator, "->", 10⟩, ⟨.int (-1), "-1", 12⟩,
      ⟨.finish, "", 14⟩] := rfl
  obtain ⟨again, hagain, hsame⟩ := complete_spaced hcomplete
  exact ⟨_, again, hcomplete, rfl, hagain, hsame⟩

end Scan

end Patchwork
