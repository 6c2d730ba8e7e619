import Patchwork.Expression.Reading
import Patchwork.Proofs.Agreement

/-!
# Tokens as they are scanned

A literal number in a token is the value of the token's own text.  This holds of
every token of a scanned text, and reading never changes a token, so it stays
true of the tokens still to read.
-/

namespace Patchwork

open Agree

/-- Whether the value of a literal number is what its text reads as. -/
def Token.IsScanned (token : Token) : Prop :=
  ∀ number, token.kind = .float number → Numeral.float? token.text = some number

namespace Scan

theorem isScanned_of_number {column : Nat} {sign chars : List Char} {found : Step}
    (hfound : number column sign chars = .ok found) : found.token.IsScanned := by
  unfold number at hfound
  dsimp only at hfound
  split at hfound
  · split at hfound
    next value hvalue =>
      cases hfound
      intro given hgiven
      cases hgiven
      exact hvalue
    next => cases hfound
  · split at hfound
    next =>
      cases hfound
      intro given hgiven
      cases hgiven
    next => cases hfound

theorem isScanned_of_symbol {column : Nat} {char : Char} {rest : List Char} {found : Step}
    (hfound : symbol column char rest = .ok found) : found.token.IsScanned := by
  unfold symbol at hfound
  split at hfound
  · cases hfound
    intro given hgiven
    cases hgiven
  split at hfound
  · cases hfound
    intro given hgiven
    cases hgiven
  split at hfound
  next kind hkind =>
    cases hfound
    intro given hgiven
    dsimp only at hgiven
    unfold punctuation? at hkind
    split at hkind <;> cases hkind <;> cases hgiven
  next => cases hfound

theorem isScanned_word (column : Nat) (chars : List Char) :
    (word column chars).token.IsScanned := by
  intro given hgiven
  dsimp only [word, wordKind] at hgiven
  split at hgiven
  · cases hgiven
  · split at hgiven <;> cases hgiven

theorem isScanned_of_string {column : Nat} {chars : List Char} {found : Step}
    (hfound : string column chars = .ok found) : found.token.IsScanned := by
  unfold string at hfound
  split at hfound
  next =>
    cases hfound
    intro given hgiven
    cases hgiven
  next => cases hfound

theorem isScanned_of_step {previous : Option TokenKind} {column : Nat} {chars : List Char}
    {found : Step} (hfound : step previous column chars = .ok found) :
    found.token.IsScanned := by
  cases chars with
  | nil =>
    cases hfound
    intro given hgiven
    cases hgiven
  | cons char rest =>
    unfold step at hfound
    dsimp only at hfound
    split at hfound
    · cases hfound
      intro given hgiven
      cases hgiven
    split at hfound
    · exact isScanned_of_number hfound
    split at hfound
    · exact isScanned_of_number hfound
    split at hfound
    · cases hfound
      exact isScanned_word column (char :: rest)
    split at hfound
    · exact isScanned_of_string hfound
    · exact isScanned_of_symbol hfound

theorem isScanned_of_mem_scanFrom {budget : Nat} {previous : Option TokenKind} {column : Nat}
    {chars : List Char} {token : Token}
    (hmem : token ∈ (scanFrom budget previous column chars).tokens) : token.IsScanned := by
  induction budget generalizing previous column chars with
  | zero => cases hmem
  | succ budget ih =>
    unfold scanFrom at hmem
    dsimp only at hmem
    split at hmem
    next => cases hmem
    next found rest hfound =>
      have hscanned := isScanned_of_step hfound
      split at hmem
      · rw [List.mem_singleton.mp hmem]
        exact hscanned
      · obtain hfirst | hrest := List.mem_cons.mp hmem
        · rw [hfirst]
          exact hscanned
        · exact ih hrest

end Scan

/-! ## Reading tokens -/

/-- The same token, as it was scanned. -/
def Tokens (token token' : Token) : Prop :=
  token = token' ∧ token.IsScanned

/-- The same tokens to read, all as they were scanned. -/
def Cursors (cursor cursor' : Cursor) : Prop :=
  cursor = cursor' ∧ ∀ token ∈ cursor.tokens, token.IsScanned

namespace Reader

theorem agree_stopped {Result Result' : Type} {related : Result → Result' → Prop} :
    Transactions Cursors related stopped stopped := by
  refine Transactions.of_get.of_bind fun cursor cursor' hcursors => ?_
  rw [hcursors.1]
  split <;> exact Transactions.of_throw _

theorem agree_current : Transactions Cursors Tokens current current := by
  refine Transactions.of_get.of_bind fun cursor cursor' hcursors => ?_
  obtain ⟨rfl, hscanned⟩ := hcursors
  split
  next token rest htokens =>
    exact Transactions.of_pure ⟨rfl, hscanned token (by simp [htokens])⟩
  next => exact agree_stopped

theorem agree_next : Transactions Cursors Tokens next next := by
  refine Transactions.of_get.of_bind fun cursor cursor' hcursors => ?_
  obtain ⟨rfl, hscanned⟩ := hcursors
  split
  next token following rest htokens =>
    refine Transactions.of_pure ⟨rfl, ?_⟩
    split
    · exact hscanned token (by simp [htokens])
    · exact hscanned following (by simp [htokens])
  next token htokens =>
    split
    · exact Transactions.of_pure ⟨rfl, hscanned token (by simp [htokens])⟩
    · exact agree_stopped
  next => exact agree_stopped

theorem agree_advance : Transactions Cursors Tokens advance advance := by
  refine Transactions.of_get.of_bind fun cursor cursor' hcursors => ?_
  obtain ⟨rfl, hscanned⟩ := hcursors
  split
  next token following rest htokens =>
    have htoken : token.IsScanned := hscanned token (by simp [htokens])
    split
    · exact Transactions.of_pure ⟨rfl, htoken⟩
    · refine (Transactions.of_set ⟨rfl, fun other hother => ?_⟩).of_bind fun _ _ _ =>
        Transactions.of_pure ⟨rfl, htoken⟩
      refine hscanned other ?_
      rw [htokens]
      exact List.mem_cons_of_mem token hother
  next token htokens =>
    split
    · exact Transactions.of_pure ⟨rfl, hscanned token (by simp [htokens])⟩
    · exact agree_stopped
  next => exact agree_stopped

theorem agree_at? (kind : TokenKind) : Transactions Cursors Eq (at? kind) (at? kind) := by
  refine agree_current.of_bind fun token token' htokens => Transactions.of_pure ?_
  rw [htokens.1]

theorem agree_expect (kind : TokenKind) (fault : ReadingFault) :
    Transactions Cursors Tokens (expect kind fault) (expect kind fault) := by
  refine agree_current.of_bind fun token token' htokens => ?_
  rw [htokens.1]
  split
  · exact agree_advance
  · exact Transactions.of_throw _

theorem agree_expectFinish : Transactions Cursors Eq expectFinish expectFinish := by
  refine agree_current.of_bind fun token token' htokens => ?_
  rw [htokens.1]
  split
  · exact Transactions.of_throw _
  · exact Transactions.of_pure rfl

theorem agree_budgetHere : Transactions Cursors Eq budgetHere budgetHere := by
  refine Transactions.of_get.of_bind fun cursor cursor' hcursors => Transactions.of_pure ?_
  rw [hcursors.1]

theorem agree_run {Result Result' : Type} {related : Result → Result' → Prop}
    {reader : Reader Result} {reader' : Reader Result'}
    (hreaders : Transactions Cursors related reader reader') (text : String) :
    Outcomes related (reader.run text) (reader'.run text) := by
  have hstart : Cursors ⟨(Scan.ofText text).tokens, (Scan.ofText text).fault?⟩
      ⟨(Scan.ofText text).tokens, (Scan.ofText text).fault?⟩ :=
    ⟨rfl, fun _ => Scan.isScanned_of_mem_scanFrom⟩
  have hall := (agree_current.of_bind fun _ _ _ => hreaders).run _ _ hstart
  exact hall.of_map fun _ _ hrelated => hrelated.1

end Reader

end Patchwork
