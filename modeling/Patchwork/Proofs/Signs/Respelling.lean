import Patchwork.Proofs.Signs.Reading

/-!
# Putting a minus sign apart from its number

Where a minus sign is part of a number token, a blank may be put directly after it: the text can
be read whenever it could be before, and it comes out alike for every record in every world.  Only
a zero in the body of a lambda shows the difference, in the text of the closure.
-/

namespace Patchwork

open Eval

namespace Reader

variable {kind other : TokenKind} {cursor cursor' : Cursor}

/-- Reads an expression up to the end. -/
def readWhole (names : Names) : Reader Node := do
  let _ ← current
  let node ← readOperation (← budgetHere) names 0
  expectFinish
  return node

theorem toOption_ofText (names : Names) (text : String) :
    (Node.ofText names text).toOption =
      (readWhole names ⟨(Scan.ofText text).tokens, (Scan.ofText text).fault?⟩).toOption.map
        Prod.fst := by
  rw [Node.ofText, Reader.run]
  change (Except.map Prod.fst (readWhole names _)).toOption = _
  cases readWhole names ⟨(Scan.ofText text).tokens, (Scan.ofText text).fault?⟩ <;> rfl

/-- The whole of both texts is read. -/
theorem matches_whole (hkinds : kind.IsOpposite other) (names : Names)
    (hsigns : SignHere kind other cursor.tokens cursor'.tokens ∨
      SignAhead kind other cursor.tokens cursor'.tokens) :
    Matches (Node.Respelt kind.isZero) (fun _ _ => True) (readWhole names) (readWhole names)
      cursor cursor' := by
  have hlength : cursor.tokens.length ≤ cursor'.tokens.length :=
    hsigns.elim SignHere.length_le SignAhead.length_le
  obtain ⟨token, rest, token', rest', htokens, htokens'⟩ : ∃ token rest token' rest',
      cursor.tokens = token :: rest ∧ cursor'.tokens = token' :: rest' := by
    generalize cursor.tokens = tokens, cursor'.tokens = tokens' at hsigns
    obtain hhere | hahead := hsigns
    · cases hhere
      exact ⟨_, _, _, _, rfl, rfl⟩
    · obtain ⟨token, rest, token', rest', htokens, htokens', -⟩ := exists_of_signAhead hahead
      exact ⟨token, rest, token', rest', htokens, htokens'⟩
  unfold Matches
  rw [readWhole, run_current htokens, run_current htokens']
  change Matches (Node.Respelt kind.isZero) (fun _ _ => True)
    (readOperation (readingBudget cursor.tokens.length) names 0 >>= fun node =>
      expectFinish >>= fun _ => pure node)
    (readOperation (readingBudget cursor'.tokens.length) names 0 >>= fun node =>
      expectFinish >>= fun _ => pure node) cursor cursor'
  have hstart : StartAt kind other cursor.tokens.length cursor cursor' := ⟨hsigns, Nat.le_refl _⟩
  refine ((readsApart hkinds _).operation names 0 hstart (by rw [readingBudget]; omega)
    (by rw [readingBudget]; omega)).bind fun node node' mid mid' hnode hmid => ?_
  rw [expectFinish, bind_assoc, bind_assoc]
  refine matches_current hmid fun token token' _ _ _ _ hword => ?_
  have hfinish : token'.isFinish = token.isFinish := by
    rw [Token.isFinish, Token.isFinish, show token'.kind = token.kind from Token.kind_eq hword]
  rw [hfinish]
  cases token.isFinish with
  | true => exact matches_pure hnode trivial
  | false => exact .none

end Reader

open Reader

variable {before after : List Char} {text spaced : String} {token : Token}

/-- With the minus sign of a number apart from it, a text is read whenever it could be before. -/
theorem ofText_respelt (names : Names) (htext : text.toList = before ++ '-' :: after)
    (hspaced : spaced.toList = before ++ '-' :: ' ' :: after)
    (htoken : token ∈ (Scan.ofText text).tokens) (hnumber : token.kind.IsNumber)
    (hcovers : token.Covers before.length) :
    Option.Rel (Node.Respelt token.kind.isZero) (Node.ofText names text).toOption
      (Node.ofText names spaced).toOption := by
  obtain ⟨other, hkinds, hsigns⟩ := Scan.sign_ofText htext hspaced htoken hnumber hcovers
  have hwhole : Matches (Node.Respelt token.kind.isZero) (fun _ _ => True) (readWhole names)
      (readWhole names) ⟨(Scan.ofText text).tokens, (Scan.ofText text).fault?⟩
      ⟨(Scan.ofText spaced).tokens, (Scan.ofText spaced).fault?⟩ :=
    matches_whole hkinds names hsigns
  rw [toOption_ofText, toOption_ofText]
  unfold Matches at hwhole
  generalize (readWhole names ⟨(Scan.ofText text).tokens, _⟩).toOption = given,
    (readWhole names ⟨(Scan.ofText spaced).tokens, _⟩).toOption = given' at hwhole ⊢
  cases hwhole with
  | none => exact .none
  | some hgiven => exact .some hgiven.1

/-- With the minus sign of a number apart from it, a text can be read exactly if it could be
before, and then it comes out alike, unless the number is zero and the bodies of lambdas
differ. -/
theorem evaluate_respelt (names : Names) (htext : text.toList = before ++ '-' :: after)
    (hspaced : spaced.toList = before ++ '-' :: ' ' :: after)
    (htoken : token ∈ (Scan.ofText text).tokens) (hnumber : token.kind.IsNumber)
    (hcovers : token.Covers before.length) :
    (Node.ofText names spaced).isOk = (Node.ofText names text).isOk ∧
      ∀ node node', Node.ofText names text = .ok node → Node.ofText names spaced = .ok node' →
        (token.kind.isZero = true → node'.bodies = node.bodies) → ∀ setting record,
          Alike Value.EqualShown (node.evaluate setting record) (node'.evaluate setting record) := by
  have hrespelt := ofText_respelt names htext hspaced htoken hnumber hcovers
  cases hread : Node.ofText names text with
  | error fault =>
    cases hread' : Node.ofText names spaced with
    | error fault' => exact ⟨rfl, nofun⟩
    | ok node' =>
      rw [hread, hread'] at hrespelt
      cases hrespelt
  | ok node =>
    cases hread' : Node.ofText names spaced with
    | error fault' =>
      rw [hread, hread'] at hrespelt
      cases hrespelt
    | ok node' =>
      rw [hread, hread'] at hrespelt
      have hnode : node.Respelt token.kind.isZero node' := Option.rel_some_some.mp hrespelt
      refine ⟨rfl, ?_⟩
      rintro _ _ ⟨⟩ ⟨⟩ hbodies setting record
      exact (hnode.apart.same hbodies).evaluate_alike setting record

/-- The lambda in `[x => -2 * x]` is read from both texts and shows the same. -/
theorem evaluate_respelt_doubling : ∃ node node',
    Node.ofText Node.noNames "[x => -2 * x]" = .ok node ∧
      Node.ofText Node.noNames "[x => - 2 * x]" = .ok node' ∧ ∀ setting record,
        Alike Value.EqualShown (node.evaluate setting record) (node'.evaluate setting record) := by
  have hread : (Node.ofText Node.noNames "[x => -2 * x]").isOk = true := by decide +kernel
  have htext : "[x => -2 * x]".toList = "[x => ".toList ++ '-' :: "2 * x]".toList := by decide
  have hspaced : "[x => - 2 * x]".toList = "[x => ".toList ++ '-' :: ' ' :: "2 * x]".toList := by
    decide
  have htoken : ⟨.int (-2), "-2", 6⟩ ∈ (Scan.ofText "[x => -2 * x]").tokens := by decide +kernel
  have hcovers : Token.Covers ⟨.int (-2), "-2", 6⟩ "[x => ".toList.length :=
    ⟨by decide, by decide⟩
  obtain ⟨hsame, halike⟩ := evaluate_respelt Node.noNames htext hspaced htoken trivial hcovers
  obtain ⟨node, hnode⟩ := exists_of_isOk hread
  obtain ⟨node', hnode'⟩ := exists_of_isOk (hsame.trans hread)
  exact ⟨node, node', hnode, hnode', halike node node' hnode hnode' nofun⟩

/-! A sign that is taken into a zero does not show. -/

/-- What a text shows that is read and evaluated where nothing is defined. -/
def shownAlone (text : String) : Option String :=
  match Node.ofText Node.noNames text with
  | .ok node => ((node.evaluate ⟨{}, {}⟩ none).run {}).1.toOption.map (Value.display fun _ => "")
  | .error _ => none

/-- In the body of a lambda a zero shows the sign that stands apart. -/
theorem shownAlone_zero :
    ⟨.int 0, "-0", 5⟩ ∈ (Scan.ofText "x => -0").tokens ∧
      shownAlone "x => -0" = some "Lambda(x => 0)" ∧
      shownAlone "x => - 0" = some "Lambda(x => -0)" := by
  decide +kernel

end Patchwork
