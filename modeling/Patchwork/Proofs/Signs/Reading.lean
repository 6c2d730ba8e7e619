import Patchwork.Proofs.Expression.Rereading
import Patchwork.Proofs.Signs.Scanning
import Patchwork.Proofs.Signs.Trees

/-!
# Reading a minus sign apart from its number

The tokens of a text and those of the text with a blank after the minus sign of a number are
read side by side: both readings succeed or both fail, and what they give differs in the place of
that sign.  Where the sign is next, an operand is read as a number on the one side and as the
opposite of a number on the other; everywhere else both readers take the same step.
-/

namespace Patchwork

namespace TokenKind

theorem Closes.ne_number {closing kind : TokenKind} (hclosing : closing.Closes) {value : Value}
    (hnumber : kind.number? = some value) : kind ≠ closing := by
  rintro rfl
  rcases hclosing with rfl | rfl <;> cases hnumber

theorem Closes.ne_operator {closing kind : TokenKind} (hclosing : closing.Closes)
    (hkind : kind = .operator) : kind ≠ closing := by
  rintro rfl
  rcases hclosing with rfl | rfl <;> cases hkind

end TokenKind

namespace Reader

variable {Left Right Left' Right' : Type}

/-- Two readers at two cursors both give related results and go on at related cursors, or both
fail. -/
def Matches (results : Left → Right → Prop) (cursors : Cursor → Cursor → Prop)
    (first : Reader Left) (second : Reader Right) (cursor cursor' : Cursor) : Prop :=
  Option.Rel (fun given given' => results given.1 given'.1 ∧ cursors given.2 given'.2)
    (first cursor).toOption (second cursor').toOption

section

variable {results : Left → Right → Prop} {others : Left' → Right' → Prop}
  {cursors between : Cursor → Cursor → Prop} {first : Reader Left} {second : Reader Right}
  {cursor cursor' : Cursor}

theorem matches_pure {result : Left} {result' : Right} (hresults : results result result')
    (hcursors : cursors cursor cursor') :
    Matches results cursors (pure result) (pure result') cursor cursor' :=
  .some ⟨hresults, hcursors⟩

theorem Matches.bind {next : Left → Reader Left'} {next' : Right → Reader Right'}
    (hfirst : Matches results between first second cursor cursor')
    (hnext : ∀ result result' mid mid', results result result' → between mid mid' →
      Matches others cursors (next result) (next' result') mid mid') :
    Matches others cursors (first >>= next) (second >>= next') cursor cursor' := by
  unfold Matches at hfirst ⊢
  change Option.Rel _ (first cursor >>= fun step => next step.1 step.2).toOption
    (second cursor' >>= fun step => next' step.1 step.2).toOption
  cases hgiven : first cursor with
  | error fault =>
    cases hgiven' : second cursor' with
    | error fault' => exact .none
    | ok given' =>
      rw [hgiven, hgiven'] at hfirst
      cases hfirst
  | ok given =>
    cases hgiven' : second cursor' with
    | error fault' =>
      rw [hgiven, hgiven'] at hfirst
      cases hfirst
    | ok given' =>
      rw [hgiven, hgiven'] at hfirst
      obtain ⟨hresults, hcursors⟩ := Option.rel_some_some.mp hfirst
      exact hnext given.1 given'.1 given.2 given'.2 hresults hcursors

theorem Matches.mono {larger : Cursor → Cursor → Prop}
    (hmatches : Matches results cursors first second cursor cursor')
    (hlarger : ∀ mid mid', cursors mid mid' → larger mid mid') :
    Matches results larger first second cursor cursor' := by
  unfold Matches at hmatches ⊢
  generalize (first cursor).toOption = given, (second cursor').toOption = given' at hmatches ⊢
  cases hmatches with
  | none => exact .none
  | some hgiven => exact .some ⟨hgiven.1, hlarger _ _ hgiven.2⟩

end

/-! ## The next token -/

section

variable (kind other : TokenKind) (bound : Nat)

/-- The sign is not next, and there are no more tokens than a bound says. -/
structure AheadAt (cursor cursor' : Cursor) : Prop where
  tokens : SignAhead kind other cursor.tokens cursor'.tokens
  length : cursor.tokens.length ≤ bound

/-- The sign may be next, and there are no more tokens than a bound says. -/
structure StartAt (cursor cursor' : Cursor) : Prop where
  tokens : SignHere kind other cursor.tokens cursor'.tokens ∨
    SignAhead kind other cursor.tokens cursor'.tokens
  length : cursor.tokens.length ≤ bound

end

variable {kind other : TokenKind} {bound : Nat} {cursor cursor' : Cursor}

theorem AheadAt.start (hahead : AheadAt kind other bound cursor cursor') :
    StartAt kind other bound cursor cursor' :=
  ⟨.inr hahead.tokens, hahead.length⟩

theorem AheadAt.mono {larger : Nat} (hahead : AheadAt kind other bound cursor cursor')
    (hlarger : bound ≤ larger) : AheadAt kind other larger cursor cursor' :=
  ⟨hahead.tokens, Nat.le_trans hahead.length hlarger⟩

theorem StartAt.pos (hstart : StartAt kind other bound cursor cursor') : 0 < bound := by
  obtain ⟨tokens, fault?⟩ := cursor
  obtain ⟨tokens', fault?'⟩ := cursor'
  obtain ⟨htokens, hlength⟩ := hstart
  dsimp only at htokens hlength
  refine Nat.lt_of_lt_of_le (List.length_pos_iff.mpr ?_) hlength
  obtain hhere | hahead := htokens
  · cases hhere
    exact List.cons_ne_nil _ _
  · cases hahead <;> exact List.cons_ne_nil _ _

theorem AheadAt.pos (hahead : AheadAt kind other bound cursor cursor') : 0 < bound :=
  hahead.start.pos

theorem exists_of_signAhead {tokens tokens' : List Token}
    (hahead : SignAhead kind other tokens tokens') :
    ∃ token rest token' rest', tokens = token :: rest ∧ tokens' = token' :: rest' ∧
      token'.word = token.word := by
  cases hahead <;> exact ⟨_, _, _, _, rfl, rfl, ‹_›⟩

theorem signAhead_tail {token token' : Token} {rest rest' : List Token}
    (hahead : SignAhead kind other (token :: rest) (token' :: rest')) :
    rest = [] ∧ rest' = [] ∨ token.kind.precedesOperand = true ∧ SignHere kind other rest rest' ∨
      SignAhead kind other rest rest' := by
  cases hahead with
  | passed _ hrest =>
    cases rest with
    | nil => exact .inl ⟨rfl, List.map_eq_nil_iff.mp hrest⟩
    | cons next rest =>
      obtain ⟨next', rest', rfl, hword, hmore⟩ := List.map_eq_cons_iff.mp hrest
      exact .inr (.inr (.passed hword hmore))
  | next _ hprecedes hhere => exact .inr (.inl ⟨hprecedes, hhere⟩)
  | later _ hahead => exact .inr (.inr hahead)

section

variable {results : Left → Right → Prop} {cursors : Cursor → Cursor → Prop} {token token' : Token}
  {rest rest' : List Token}

theorem matches_current {next : Token → Reader Left} {next' : Token → Reader Right}
    (hahead : AheadAt kind other bound cursor cursor')
    (hnext : ∀ token token' rest rest', cursor.tokens = token :: rest →
      cursor'.tokens = token' :: rest' → token'.word = token.word →
        Matches results cursors (next token) (next' token') cursor cursor') :
    Matches results cursors (current >>= next) (current >>= next') cursor cursor' := by
  obtain ⟨token, rest, token', rest', htokens, htokens', hword⟩ := exists_of_signAhead hahead.tokens
  have hmatches := hnext token token' rest rest' htokens htokens' hword
  unfold Matches at hmatches ⊢
  change Option.Rel _ (current cursor >>= fun step => next step.1 step.2).toOption
    (current cursor' >>= fun step => next' step.1 step.2).toOption
  rw [current_eq htokens, current_eq htokens']
  exact hmatches

theorem matches_at? {expected : TokenKind} {next : Bool → Reader Left} {next' : Bool → Reader Right}
    (hahead : AheadAt kind other bound cursor cursor')
    (hnext : ∀ token token' rest rest', cursor.tokens = token :: rest →
      cursor'.tokens = token' :: rest' → token'.word = token.word →
        Matches results cursors (next (token.kind == expected)) (next' (token.kind == expected))
          cursor cursor') :
    Matches results cursors (at? expected >>= next) (at? expected >>= next') cursor cursor' := by
  rw [at?, bind_assoc, bind_assoc]
  simp only [pure_bind]
  refine matches_current hahead fun token token' rest rest' htokens htokens' hword => ?_
  have hkinds : token'.kind = token.kind := Token.kind_eq hword
  rw [hkinds]
  exact hnext token token' rest rest' htokens htokens' hword

theorem advance_cons {following : Token} {fault? : Option ScanFault} (hkind : token.kind ≠ .finish) :
    advance ⟨token :: following :: rest, fault?⟩ = .ok (token, ⟨following :: rest, fault?⟩) := by
  have hfinish : token.isFinish = false := by simp [Token.isFinish, hkind]
  change (if token.isFinish then _ else _ : Reader Token) _ = _
  rw [hfinish]
  rfl

theorem advance_last {fault? : Option ScanFault} (hkind : token.kind ≠ .finish) :
    advance ⟨[token], fault?⟩ = stopped ⟨[token], fault?⟩ := by
  have hfinish : token.isFinish = false := by simp [Token.isFinish, hkind]
  change (if token.isFinish then _ else _ : Reader Token) _ = _
  rw [hfinish]
  rfl

theorem next_cons {following : Token} {fault? : Option ScanFault} (hkind : token.kind ≠ .finish) :
    Reader.next ⟨token :: following :: rest, fault?⟩ =
      .ok (following, ⟨token :: following :: rest, fault?⟩) := by
  have hfinish : token.isFinish = false := by simp [Token.isFinish, hkind]
  change Except.ok (if token.isFinish then token else following, _) = _
  rw [hfinish]
  rfl

theorem next_last {fault? : Option ScanFault} (hkind : token.kind ≠ .finish) :
    Reader.next ⟨[token], fault?⟩ = stopped ⟨[token], fault?⟩ := by
  have hfinish : token.isFinish = false := by simp [Token.isFinish, hkind]
  change (if token.isFinish then _ else _ : Reader Token) _ = _
  rw [hfinish]
  rfl

theorem kind_eq_of_signAhead (hahead : SignAhead kind other (token :: rest) (token' :: rest')) :
    token'.kind = token.kind := by
  obtain ⟨_, _, _, _, hsame, hsame', hword⟩ := exists_of_signAhead hahead
  obtain ⟨rfl, -⟩ := List.cons.inj hsame
  obtain ⟨rfl, -⟩ := List.cons.inj hsame'
  exact Token.kind_eq hword

/-- Both readers move over a token that is not the end. -/
theorem matches_advance {next : Token → Reader Left} {next' : Token → Reader Right}
    (hahead : AheadAt kind other bound cursor cursor') (htokens : cursor.tokens = token :: rest)
    (htokens' : cursor'.tokens = token' :: rest') (hkind : token.kind ≠ .finish)
    (hnext : ∀ mid mid', mid.tokens = rest → mid'.tokens = rest' →
      StartAt kind other (bound - 1) mid mid' →
      (token.kind.precedesOperand = false → AheadAt kind other (bound - 1) mid mid') →
        Matches results cursors (next token) (next' token') mid mid') :
    Matches results cursors (advance >>= next) (advance >>= next') cursor cursor' := by
  obtain ⟨hsigns, hlength⟩ := hahead
  obtain ⟨tokens, fault?⟩ := cursor
  obtain ⟨tokens', fault?'⟩ := cursor'
  cases htokens
  cases htokens'
  have hkind' : token'.kind ≠ .finish := kind_eq_of_signAhead hsigns ▸ hkind
  have hshorter : rest.length ≤ bound - 1 := Nat.le_sub_one_of_lt hlength
  unfold Matches
  change Option.Rel _ (advance _ >>= fun step => next step.1 step.2).toOption
    (advance _ >>= fun step => next' step.1 step.2).toOption
  obtain ⟨rfl, rfl⟩ | hmore := signAhead_tail hsigns
  · rw [advance_last hkind, advance_last hkind']
    cases fault? <;> cases fault?' <;> exact .none
  · have hstart : StartAt kind other (bound - 1) ⟨rest, fault?⟩ ⟨rest', fault?'⟩ :=
      ⟨hmore.imp_left And.right, hshorter⟩
    obtain ⟨following, after, following', after', rfl, rfl⟩ : ∃ following after following' after',
        rest = following :: after ∧ rest' = following' :: after' := by
      obtain ⟨-, ⟨⟩⟩ | hmore := hmore
      · exact ⟨_, _, _, _, rfl, rfl⟩
      · obtain ⟨_, _, _, _, hrest, hrest', -⟩ := exists_of_signAhead hmore
        exact ⟨_, _, _, _, hrest, hrest'⟩
    rw [advance_cons hkind, advance_cons hkind']
    refine hnext _ _ rfl rfl hstart fun hplain => ⟨?_, hshorter⟩
    exact hmore.resolve_left fun hprecedes => by rw [hplain] at hprecedes; cases hprecedes.1

/-- Both readers move over a token after which no operand starts. -/
theorem matches_advance_plain {next : Token → Reader Left} {next' : Token → Reader Right}
    (hahead : AheadAt kind other bound cursor cursor') (htokens : cursor.tokens = token :: rest)
    (htokens' : cursor'.tokens = token' :: rest') (hkind : token.kind ≠ .finish)
    (hplain : token.kind.precedesOperand = false)
    (hnext : ∀ mid mid', mid.tokens = rest → mid'.tokens = rest' →
      AheadAt kind other (bound - 1) mid mid' →
        Matches results cursors (next token) (next' token') mid mid') :
    Matches results cursors (advance >>= next) (advance >>= next') cursor cursor' :=
  matches_advance hahead htokens htokens' hkind fun mid mid' hmid hmid' _ hafter =>
    hnext mid mid' hmid hmid' (hafter hplain)

theorem matches_next {next : Token → Reader Left} {next' : Token → Reader Right}
    (hahead : AheadAt kind other bound cursor cursor') (htokens : cursor.tokens = token :: rest)
    (htokens' : cursor'.tokens = token' :: rest') (hkind : token.kind ≠ .finish)
    (hplain : token.kind.precedesOperand = false)
    (hnext : ∀ following following' after after', rest = following :: after →
      rest' = following' :: after' → following'.word = following.word →
        Matches results cursors (next following) (next' following') cursor cursor') :
    Matches results cursors (Reader.next >>= next) (Reader.next >>= next') cursor cursor' := by
  obtain ⟨hsigns, -⟩ := hahead
  obtain ⟨tokens, fault?⟩ := cursor
  obtain ⟨tokens', fault?'⟩ := cursor'
  cases htokens
  cases htokens'
  have hkind' : token'.kind ≠ .finish := kind_eq_of_signAhead hsigns ▸ hkind
  unfold Matches
  change Option.Rel _ (Reader.next _ >>= fun step => next step.1 step.2).toOption
    (Reader.next _ >>= fun step => next' step.1 step.2).toOption
  obtain ⟨rfl, rfl⟩ | ⟨hprecedes, -⟩ | hmore := signAhead_tail hsigns
  · rw [next_last hkind, next_last hkind']
    cases fault? <;> cases fault?' <;> exact .none
  · rw [hplain] at hprecedes
    cases hprecedes
  · obtain ⟨following, after, following', after', rfl, rfl, hword⟩ := exists_of_signAhead hmore
    rw [next_cons hkind, next_cons hkind']
    exact hnext following following' after after' rfl rfl hword

theorem matches_expect {expected : TokenKind} {fault : ReadingFault} {next : Token → Reader Left}
    {next' : Token → Reader Right} (hexpected : expected ≠ .finish)
    (hahead : AheadAt kind other bound cursor cursor')
    (hnext : ∀ token token' mid mid', StartAt kind other (bound - 1) mid mid' →
      (expected.precedesOperand = false → AheadAt kind other (bound - 1) mid mid') →
        Matches results cursors (next token) (next' token') mid mid') :
    Matches results cursors (expect expected fault >>= next) (expect expected fault >>= next')
      cursor cursor' := by
  rw [expect, bind_assoc, bind_assoc]
  refine matches_current hahead fun token token' rest rest' htokens htokens' hword => ?_
  have hkinds : token'.kind = token.kind := Token.kind_eq hword
  rw [hkinds]
  by_cases hkind : token.kind = expected
  · rw [if_pos (beq_iff_eq.mpr hkind), if_pos (beq_iff_eq.mpr hkind)]
    refine matches_advance hahead htokens htokens' (hkind ▸ hexpected)
      fun mid mid' _ _ hstart hafter => ?_
    exact hnext token token' mid mid' hstart (hkind ▸ hafter)
  · rw [if_neg (mt beq_iff_eq.mp hkind), if_neg (mt beq_iff_eq.mp hkind)]
    exact .none

end

end Reader

open Reader

/-! ## The sign and the number -/

section

variable {budget : Nat} {names : Names} {token : Token} {rest : List Token} {cursor : Cursor}

theorem run_current {Result : Type} {next : Token → Reader Result}
    (htokens : cursor.tokens = token :: rest) : (current >>= next) cursor = next token cursor := by
  change (current cursor >>= fun step => next step.1 step.2) = _
  rw [current_eq htokens]
  rfl

theorem run_at? {Result : Type} {next : Bool → Reader Result} {expected : TokenKind}
    (htokens : cursor.tokens = token :: rest) :
    (at? expected >>= next) cursor = next (token.kind == expected) cursor := by
  rw [at?, bind_assoc, run_current htokens]
  rfl

theorem run_advance {Result : Type} {next : Token → Reader Result} {following : Token}
    {fault? : Option ScanFault} (hkind : token.kind ≠ .finish) :
    (advance >>= next) ⟨token :: following :: rest, fault?⟩ =
      next token ⟨following :: rest, fault?⟩ := by
  change (advance _ >>= fun step => next step.1 step.2) = _
  rw [advance_cons hkind]
  rfl

/-- Scanning has stopped after the last token. -/
theorem run_advance_last {Result : Type} {next : Token → Reader Result}
    {fault? : Option ScanFault} (hkind : token.kind ≠ .finish) :
    ((advance >>= next) ⟨[token], fault?⟩).toOption = none := by
  change (advance _ >>= fun step => next step.1 step.2).toOption = _
  rw [advance_last hkind]
  cases fault? <;> rfl

theorem run_bind_congr {Result Next : Type} {first second : Reader Result}
    (hrun : first cursor = second cursor) (next : Result → Reader Next) :
    (first >>= next) cursor = (second >>= next) cursor := by
  change (first cursor >>= fun step => next step.1 step.2) =
    (second cursor >>= fun step => next step.1 step.2)
  rw [hrun]

/-- Where a number is next, an operand is the number with the indexes after it. -/
theorem readOperand_number {value : Value} (hnumber : token.kind.number? = some value)
    (htokens : cursor.tokens = token :: rest) :
    readOperand (budget + 2) names cursor =
      (advance >>= fun _ => readIndexes (budget + 1) names (.literal value)) cursor := by
  obtain ⟨kind, text, column⟩ := token
  cases kind with
  | int number | float number =>
    cases hnumber
    rw [readOperand, run_current htokens]
    change (readPrimary (budget + 1) names >>= readIndexes (budget + 1) names) cursor = _
    rw [readPrimary, bind_assoc, run_current htokens]
    dsimp only
    rw [bind_assoc]
    rfl
  | _ => cases hnumber

/-- Where a minus sign is next, an operand is the opposite of the one after it. -/
theorem readOperand_minus (hword : token.word = .operator "-")
    (htokens : cursor.tokens = token :: rest) :
    readOperand (budget + 1) names cursor =
      (advance >>= fun _ => readOperation budget names operandLevel >>= fun node =>
        pure (.unary .negative node)) cursor := by
  obtain ⟨kind, text, column⟩ := token
  cases hword
  rw [readOperand, run_current htokens]
  rfl

/-- At the level of operands no operator is read after one. -/
theorem run_readOperations (hbudget : 0 < budget) (htokens : cursor.tokens = token :: rest)
    (left : Node) :
    readOperations budget names operandLevel left cursor = (pure left : Reader Node) cursor := by
  obtain ⟨budget, rfl⟩ := Nat.exists_eq_succ_of_ne_zero (Nat.ne_of_gt hbudget)
  rw [readOperations, run_current htokens]
  cases Connective.ofToken? token with
  | none => rfl
  | some operator =>
    dsimp only
    rw [if_pos operator.level_lt_operandLevel]

end

/-! ## What is made of the parts -/

section Making

variable {kind other : TokenKind} {zero : Bool} {bound : Nat} {cursor cursor' : Cursor}
  {names : Names} {token token' : Token}

theorem makePipe_of_not_procedure {left right : Node} (hright : right.isProcedure = false) :
    makePipe names token left right = failAt token (.notProcedure (right.text names.labels)) := by
  cases right with
  | procedure => cases hright
  | _ => rfl

theorem matches_makeJoined (operator : Connective) {left left' right right' : Node}
    (hleft : left.Respelt zero left') (hright : right.Respelt zero right')
    (hahead : AheadAt kind other bound cursor cursor') :
    Matches (Node.Respelt zero) (AheadAt kind other bound)
      (makeJoined names token operator left right) (makeJoined names token' operator left' right')
      cursor cursor' := by
  cases operator with
  | operator between =>
    exact matches_pure (.of_apart (.binary between hleft.apart hright.apart) rfl rfl rfl) hahead
  | arrow =>
    change Matches _ _ (makePipe names token left right) (makePipe names token' left' right') _ _
    cases hright.procedures with
    | procedure procedure pairwise harguments =>
      unfold makePipe
      dsimp only
      rw [hleft.group]
      split
      · exact matches_pure
          (.of_apart (.pipe procedure pairwise hleft.apart harguments) rfl rfl rfl) hahead
      · exact .none
    | other hnode hnode' =>
      rw [makePipe_of_not_procedure hnode, makePipe_of_not_procedure hnode']
      exact .none

theorem matches_makeCall (callee : Callee) {arguments arguments' : List Node}
    (harguments : List.Forall₂ (Node.Respelt zero) arguments arguments')
    (hahead : AheadAt kind other bound cursor cursor') :
    Matches (Node.Respelt zero) (AheadAt kind other bound)
      (makeCall token callee arguments) (makeCall token' callee arguments') cursor cursor' := by
  have hnodes := signsApart_of_respelt harguments
  unfold makeCall
  rw [← harguments.length_eq]
  split
  · exact .none
  · cases callee with
    | predicate predicate => exact matches_pure (.of_apart (.test predicate hnodes) rfl rfl rfl) hahead
    | function function =>
      exact matches_pure (.of_apart (.call function hnodes) rfl rfl rfl) hahead
    | procedure procedure =>
      exact matches_pure ⟨.procedure procedure false hnodes, rfl, .procedure procedure false hnodes⟩
        hahead

theorem makePairwise_of_not_procedure {node : Node} {rest : List Node}
    (hnode : node.isProcedure = false) :
    makePairwise token (node :: rest) = failAt token .notOneProcedure := by
  cases node with
  | procedure => cases hnode
  | _ => rfl

theorem matches_makePairwise {arguments arguments' : List Node}
    (harguments : List.Forall₂ (Node.Respelt zero) arguments arguments')
    (hahead : AheadAt kind other bound cursor cursor') :
    Matches (Node.Respelt zero) (AheadAt kind other bound)
      (makePairwise token arguments) (makePairwise token' arguments') cursor cursor' := by
  cases harguments with
  | nil => exact .none
  | cons hfirst hrest =>
    cases hfirst.procedures with
    | other hnode hnode' =>
      rw [makePairwise_of_not_procedure hnode, makePairwise_of_not_procedure hnode']
      exact .none
    | procedure procedure pairwise hinner =>
      cases hrest with
      | cons => exact .none
      | nil =>
        unfold makePairwise
        dsimp only
        split
        · exact matches_pure
            ⟨.procedure procedure true hinner, rfl, .procedure procedure true hinner⟩ hahead
        · exact .none

theorem matches_readName (hword : token'.word = token.word)
    (hahead : AheadAt kind other bound cursor cursor') :
    Matches (Node.Respelt zero) (AheadAt kind other bound)
      (readName names token) (readName names token') cursor cursor' := by
  unfold readName
  rw [show token'.text = token.text from Token.text_eq hword]
  split
  · exact matches_pure (.refl _) hahead
  · split
    · exact .none
    · exact matches_pure (.refl _) hahead
    · exact matches_pure (.refl _) hahead

end Making

/-! ## The readers -/

section Readers

variable (kind other : TokenKind) (zero : Bool)

/-- The readers with a budget and those with another one match, if the budgets suffice. -/
structure ReadsApart (budget : Nat) : Prop where
  operation : ∀ {larger bound : Nat} {cursor cursor' : Cursor} (names : Names) (level : Nat),
    StartAt kind other bound cursor cursor' → 16 * bound + 5 ≤ budget → 16 * bound + 5 ≤ larger →
      Matches (Node.Respelt zero) (AheadAt kind other (bound - 1))
        (readOperation budget names level) (readOperation larger names level) cursor cursor'
  operations : ∀ {larger bound : Nat} {cursor cursor' : Cursor} (names : Names) (level : Nat)
    {left left' : Node}, left.Respelt zero left' →
    AheadAt kind other bound cursor cursor' → 16 * bound + 1 ≤ budget → 16 * bound + 1 ≤ larger →
      Matches (Node.Respelt zero) (AheadAt kind other bound)
        (readOperations budget names level left) (readOperations larger names level left')
        cursor cursor'
  operand : ∀ {larger bound : Nat} {cursor cursor' : Cursor} (names : Names),
    StartAt kind other bound cursor cursor' → 16 * bound + 4 ≤ budget → 16 * bound + 4 ≤ larger →
      Matches (Node.Respelt zero) (AheadAt kind other (bound - 1))
        (readOperand budget names) (readOperand larger names) cursor cursor'
  indexes : ∀ {larger bound : Nat} {cursor cursor' : Cursor} (names : Names)
    {targets : Node → Node → Prop} (_ : ∀ {target target' position position' : Node},
      targets target target' → position.Respelt zero position' →
        targets (.index target position) (.index target' position'))
    {target target' : Node}, targets target target' →
    AheadAt kind other bound cursor cursor' → 16 * bound + 1 ≤ budget → 16 * bound + 1 ≤ larger →
      Matches targets (AheadAt kind other bound)
        (readIndexes budget names target) (readIndexes larger names target') cursor cursor'
  primary : ∀ {larger bound : Nat} {cursor cursor' : Cursor} (names : Names),
    AheadAt kind other bound cursor cursor' → 16 * bound + 3 ≤ budget → 16 * bound + 3 ≤ larger →
      Matches (Node.Respelt zero) (AheadAt kind other (bound - 1))
        (readPrimary budget names) (readPrimary larger names) cursor cursor'
  identifier : ∀ {larger bound : Nat} {cursor cursor' : Cursor} {token : Token}
    {rest : List Token} (names : Names), cursor.tokens = token :: rest → token.kind = .identifier →
    AheadAt kind other bound cursor cursor' → 16 * bound + 2 ≤ budget → 16 * bound + 2 ≤ larger →
      Matches (Node.Respelt zero) (AheadAt kind other (bound - 1))
        (readIdentifier budget names) (readIdentifier larger names) cursor cursor'
  list : ∀ {larger bound : Nat} {cursor cursor' : Cursor} (names : Names) {closing : TokenKind},
    closing.Closes → StartAt kind other bound cursor cursor' →
    16 * bound + 6 ≤ budget → 16 * bound + 6 ≤ larger →
      Matches (List.Forall₂ (Node.Respelt zero)) (AheadAt kind other bound)
        (readList budget names closing) (readList larger names closing) cursor cursor'
  more : ∀ {larger bound : Nat} {cursor cursor' : Cursor} (names : Names),
    AheadAt kind other bound cursor cursor' → 16 * bound + 1 ≤ budget → 16 * bound + 1 ≤ larger →
      Matches (List.Forall₂ (Node.Respelt zero)) (AheadAt kind other bound)
        (readMore budget names) (readMore larger names) cursor cursor'
  arguments : ∀ {larger bound : Nat} {cursor cursor' : Cursor} (names : Names),
    AheadAt kind other bound cursor cursor' → 16 * bound + 7 ≤ budget → 16 * bound + 7 ≤ larger →
      Matches (List.Forall₂ (Node.Respelt zero)) (AheadAt kind other (bound - 1))
        (readArguments budget names) (readArguments larger names) cursor cursor'
  call : ∀ {larger bound : Nat} {cursor cursor' : Cursor} (names : Names) {token token' : Token},
    token'.word = token.word → AheadAt kind other bound cursor cursor' →
    16 * bound + 8 ≤ budget → 16 * bound + 8 ≤ larger →
      Matches (Node.Respelt zero) (AheadAt kind other (bound - 1))
        (readCall budget names token) (readCall larger names token') cursor cursor'

end Readers

section Steps

variable {kind other : TokenKind} {zero : Bool} {budget larger bound : Nat}
  {cursor cursor' : Cursor} (hreads : ReadsApart kind other zero budget) (names : Names)

include hreads

theorem matches_readOperation (level : Nat) (hstart : StartAt kind other bound cursor cursor')
    (hbudget : 16 * bound + 5 ≤ budget + 1) (hlarger : 16 * bound + 5 ≤ larger + 1) :
    Matches (Node.Respelt zero) (AheadAt kind other (bound - 1))
      (readOperation (budget + 1) names level) (readOperation (larger + 1) names level)
      cursor cursor' := by
  rw [readOperation, readOperation]
  refine (hreads.operand names hstart (by omega) (by omega)).bind
    fun left left' mid mid' hleft hmid => ?_
  exact hreads.operations names level hleft hmid (by omega) (by omega)

/-- An operand that starts with the sign. -/
theorem matches_readOperand_here {value opposite : Value}
    (hvalue : other.number? = some value) (hopposite : kind.number? = some opposite)
    (hnegated : value.negated? zero = some opposite)
    (hhere : SignHere kind other cursor.tokens cursor'.tokens)
    (hlength : cursor.tokens.length ≤ bound) (hbudget : 16 * bound + 4 ≤ budget + 1)
    (hlarger : 16 * bound + 4 ≤ larger + 1) :
    Matches (Node.Respelt zero) (AheadAt kind other (bound - 1))
      (readOperand (budget + 1) names) (readOperand (larger + 1) names) cursor cursor' := by
  obtain ⟨tokens, fault?⟩ := cursor
  obtain ⟨tokens', fault?'⟩ := cursor'
  obtain @⟨number, minus, unsigned, rest, rest', rfl, hminus, rfl, hrest⟩ := hhere
  obtain ⟨budget, rfl⟩ : ∃ fewer, budget = fewer + 1 := ⟨budget - 1, by omega⟩
  obtain ⟨larger, rfl⟩ : ∃ fewer, larger = fewer + 3 := ⟨larger - 3, by omega⟩
  have hnumber : number.kind ≠ .finish := TokenKind.notFinish_of_number? hopposite
  have hunsigned : unsigned.kind ≠ .finish := TokenKind.notFinish_of_number? hvalue
  have hsign : minus.kind ≠ .finish := by rw [Token.kind_eq hminus]; nofun
  unfold Matches
  rw [readOperand_number hopposite rfl, readOperand_minus hminus rfl, run_advance hsign,
    readOperation, bind_assoc, run_bind_congr (readOperand_number hvalue rfl), bind_assoc]
  cases rest with
  | nil =>
    rw [List.map_eq_nil_iff.mp hrest, run_advance_last hnumber, run_advance_last hunsigned]
    exact .none
  | cons next rest =>
    obtain ⟨next', rest', rfl, hnext, hmore⟩ := List.map_eq_cons_iff.mp hrest
    rw [run_advance hnumber, run_advance hunsigned]
    have hahead : AheadAt number.kind unsigned.kind (bound - 1) ⟨next :: rest, fault?⟩
        ⟨next' :: rest', fault?'⟩ :=
      ⟨.passed hnext hmore, Nat.le_sub_one_of_lt hlength⟩
    have hindexes : Matches (Node.Unsigned zero) (AheadAt number.kind unsigned.kind (bound - 1))
        (readIndexes (budget + 1) names (.literal opposite))
        (readIndexes (larger + 1) names (.literal value)) ⟨next :: rest, fault?⟩
        ⟨next' :: rest', fault?'⟩ :=
      hreads.indexes names Node.Unsigned.index (Node.Unsigned.literal hnegated) hahead (by omega)
        (by omega)
    -- No operator is read after the number with its indexes, so the sign takes them all.
    have hboth := hindexes.bind (fun target target' mid mid' htarget hmid =>
      show Matches (Node.Respelt zero) (AheadAt number.kind unsigned.kind (bound - 1))
        (pure target) (readOperations (larger + 2) names operandLevel target' >>= fun node =>
          pure (.unary .negative node)) mid mid' from ?_)
    · rwa [bind_pure] at hboth
    · obtain ⟨_, _, _, _, -, hmid', -⟩ := exists_of_signAhead hmid.tokens
      unfold Matches
      rw [run_bind_congr (run_readOperations (Nat.succ_pos _) hmid' target')]
      exact .some ⟨htarget.respelt, hmid⟩

theorem matches_readOperand (hkinds : kind.IsOpposite other) (hzero : zero = kind.isZero)
    (hstart : StartAt kind other bound cursor cursor') (hbudget : 16 * bound + 4 ≤ budget + 1)
    (hlarger : 16 * bound + 4 ≤ larger + 1) :
    Matches (Node.Respelt zero) (AheadAt kind other (bound - 1))
      (readOperand (budget + 1) names) (readOperand (larger + 1) names) cursor cursor' := by
  obtain hhere | hahead := hstart.tokens
  · obtain ⟨value, opposite, hvalue, hopposite, hnegated⟩ := hkinds
    exact matches_readOperand_here hreads names hvalue hopposite (hzero ▸ hnegated) hhere
      hstart.length hbudget hlarger
  have hahead : AheadAt kind other bound cursor cursor' := ⟨hahead, hstart.length⟩
  have hpositive := hahead.pos
  rw [readOperand, readOperand]
  refine matches_current hahead fun token token' rest rest' htokens htokens' hword => ?_
  have hkind : token'.kind = token.kind := Token.kind_eq hword
  have htext : token'.text = token.text := Token.text_eq hword
  rw [hkind, htext]
  by_cases hoperator : token.kind = .operator
  · rw [if_pos (beq_iff_eq.mpr hoperator)]
    cases UnaryOperator.ofSymbol? token.text with
    | some operator =>
      refine matches_advance hahead htokens htokens' (by rw [hoperator]; simp)
        fun mid mid' _ _ hmid _ => ?_
      refine (hreads.operation names operandLevel hmid (by omega) (by omega)).bind
        fun operand operand' mid mid' hoperand hmid => ?_
      exact matches_pure (.of_apart (.unary operator hoperand.apart) rfl rfl rfl)
        (hmid.mono (by omega))
    | none =>
      refine (hreads.primary names hahead (by omega) (by omega)).bind
        fun primary primary' mid mid' hprimary hmid => ?_
      exact hreads.indexes names Node.Respelt.index hprimary hmid (by omega) (by omega)
  · rw [if_neg (mt beq_iff_eq.mp hoperator)]
    refine (hreads.primary names hahead (by omega) (by omega)).bind
      fun primary primary' mid mid' hprimary hmid => ?_
    exact hreads.indexes names Node.Respelt.index hprimary hmid (by omega) (by omega)

theorem matches_readIndexes {targets : Node → Node → Prop}
    (hclosed : ∀ {target target' position position' : Node}, targets target target' →
      position.Respelt zero position' → targets (.index target position) (.index target' position'))
    {target target' : Node} (htarget : targets target target')
    (hahead : AheadAt kind other bound cursor cursor')
    (hbudget : 16 * bound + 1 ≤ budget + 1) (hlarger : 16 * bound + 1 ≤ larger + 1) :
    Matches targets (AheadAt kind other bound)
      (readIndexes (budget + 1) names target) (readIndexes (larger + 1) names target')
      cursor cursor' := by
  have hpositive := hahead.pos
  rw [readIndexes, readIndexes]
  refine matches_at? hahead fun token token' rest rest' htokens htokens' hword => ?_
  by_cases hbracket : token.kind = .leftBracket
  · rw [if_pos (beq_iff_eq.mpr hbracket), if_pos (beq_iff_eq.mpr hbracket)]
    refine matches_advance hahead htokens htokens' (by rw [hbracket]; simp)
      fun mid mid' _ _ hmid _ => ?_
    refine (hreads.operation names 0 hmid (by omega) (by omega)).bind
      fun position position' mid mid' hposition hmid => ?_
    refine matches_expect (by simp) hmid fun _ _ mid mid' _ hafter => ?_
    have hindexes := hreads.indexes names hclosed (hclosed htarget hposition) (hafter rfl)
      (by omega) (by omega : 16 * (bound - 1 - 1 - 1) + 1 ≤ larger)
    exact hindexes.mono fun mid mid' hmid => hmid.mono (by omega)
  · rw [if_neg (mt beq_iff_eq.mp hbracket), if_neg (mt beq_iff_eq.mp hbracket)]
    exact matches_pure htarget hahead

theorem matches_readOperations (level : Nat) {left left' : Node} (hleft : left.Respelt zero left')
    (hahead : AheadAt kind other bound cursor cursor')
    (hbudget : 16 * bound + 1 ≤ budget + 1) (hlarger : 16 * bound + 1 ≤ larger + 1) :
    Matches (Node.Respelt zero) (AheadAt kind other bound)
      (readOperations (budget + 1) names level left) (readOperations (larger + 1) names level left')
      cursor cursor' := by
  have hpositive := hahead.pos
  rw [readOperations, readOperations]
  refine matches_current hahead fun token token' rest rest' htokens htokens' hword => ?_
  have hconnective : Connective.ofToken? token' = Connective.ofToken? token := by
    unfold Connective.ofToken?
    rw [show token'.kind = token.kind from Token.kind_eq hword,
      show token'.text = token.text from Token.text_eq hword]
  rw [hconnective]
  cases hoperator : Connective.ofToken? token with
  | none => exact matches_pure hleft hahead
  | some operator =>
    dsimp only
    by_cases hlevel : operator.level < level
    · rw [if_pos hlevel, if_pos hlevel]
      exact matches_pure hleft hahead
    · rw [if_neg hlevel, if_neg hlevel]
      have hkind := Connective.kind_of_ofToken? hoperator
      refine matches_advance hahead htokens htokens' (by rw [hkind]; simp)
        fun mid mid' _ _ hmid _ => ?_
      refine (hreads.operation names (operator.level + 1) hmid (by omega) (by omega)).bind
        fun right right' mid mid' hright hmid => ?_
      refine (matches_makeJoined operator hleft hright hmid).bind
        fun joined joined' mid mid' hjoined hmid => ?_
      have hoperations := hreads.operations names level hjoined hmid
        (by omega) (by omega : 16 * (bound - 1 - 1) + 1 ≤ larger)
      exact hoperations.mono fun mid mid' hmid => hmid.mono (by omega)

theorem matches_readMore (hahead : AheadAt kind other bound cursor cursor')
    (hbudget : 16 * bound + 1 ≤ budget + 1) (hlarger : 16 * bound + 1 ≤ larger + 1) :
    Matches (List.Forall₂ (Node.Respelt zero)) (AheadAt kind other bound)
      (readMore (budget + 1) names) (readMore (larger + 1) names) cursor cursor' := by
  rw [readMore, readMore]
  refine matches_at? hahead fun token token' rest rest' htokens htokens' hword => ?_
  by_cases hcomma : token.kind = .comma
  · rw [if_pos (beq_iff_eq.mpr hcomma), if_pos (beq_iff_eq.mpr hcomma)]
    refine matches_advance hahead htokens htokens' (by rw [hcomma]; simp)
      fun mid mid' hrest _ hstart _ => ?_
    have hpositive := hahead.pos
    refine (hreads.operation names 0 hstart (by omega) (by omega)).bind
      fun first first' mid mid' hfirst hmid => ?_
    refine (hreads.more names hmid (by omega) (by omega)).bind
      fun others others' mid mid' hothers hmid => ?_
    exact matches_pure (List.Forall₂.cons hfirst hothers) (hmid.mono (by omega))
  · rw [if_neg (mt beq_iff_eq.mp hcomma), if_neg (mt beq_iff_eq.mp hcomma)]
    exact matches_pure List.Forall₂.nil hahead

theorem matches_readList {closing : TokenKind} (hclosing : closing.Closes)
    (hkinds : kind.IsOpposite other) (hstart : StartAt kind other bound cursor cursor')
    (hbudget : 16 * bound + 6 ≤ budget + 1) (hlarger : 16 * bound + 6 ≤ larger + 1) :
    Matches (List.Forall₂ (Node.Respelt zero)) (AheadAt kind other bound)
      (readList (budget + 1) names closing) (readList (larger + 1) names closing)
      cursor cursor' := by
  have hpositive := hstart.pos
  have hmore : Matches (List.Forall₂ (Node.Respelt zero)) (AheadAt kind other bound)
      (readOperation budget names 0 >>= fun first =>
        readMore budget names >>= fun others => pure (first :: others))
      (readOperation larger names 0 >>= fun first =>
        readMore larger names >>= fun others => pure (first :: others)) cursor cursor' := by
    refine (hreads.operation names 0 hstart (by omega) (by omega)).bind
      fun first first' mid mid' hfirst hmid => ?_
    refine (hreads.more names hmid (by omega) (by omega)).bind
      fun others others' mid mid' hothers hmid => ?_
    exact matches_pure (List.Forall₂.cons hfirst hothers) (hmid.mono (by omega))
  rw [readList, readList]
  obtain hhere | hahead := hstart.tokens
  · obtain ⟨tokens, fault?⟩ := cursor
    obtain ⟨tokens', fault?'⟩ := cursor'
    obtain ⟨_, _, -, hnumber, -⟩ := hkinds
    obtain @⟨number, minus, unsigned, rest, rest', rfl, hminus, rfl, -⟩ := hhere
    unfold Matches at hmore ⊢
    rw [run_at? rfl, run_at? rfl, if_neg (mt beq_iff_eq.mp (hclosing.ne_number hnumber)),
      if_neg (mt beq_iff_eq.mp (hclosing.ne_operator (Token.kind_eq hminus)))]
    exact hmore
  · have hahead : AheadAt kind other bound cursor cursor' := ⟨hahead, hstart.length⟩
    refine matches_at? hahead fun token token' rest rest' htokens htokens' hword => ?_
    split
    · exact matches_pure List.Forall₂.nil hahead
    · exact hmore

theorem matches_readArguments (hahead : AheadAt kind other bound cursor cursor')
    (hbudget : 16 * bound + 7 ≤ budget + 1) (hlarger : 16 * bound + 7 ≤ larger + 1) :
    Matches (List.Forall₂ (Node.Respelt zero)) (AheadAt kind other (bound - 1))
      (readArguments (budget + 1) names) (readArguments (larger + 1) names) cursor cursor' := by
  have hpositive := hahead.pos
  rw [readArguments, readArguments]
  refine matches_expect (by simp) hahead fun _ _ mid mid' hmid _ => ?_
  refine (hreads.list names (.inl rfl) hmid (by omega) (by omega)).bind
    fun arguments arguments' mid mid' harguments hmid => ?_
  refine matches_expect (by simp) hmid fun _ _ mid mid' _ hafter => ?_
  exact matches_pure harguments ((hafter rfl).mono (by omega))

theorem matches_readCall {token token' : Token} (hword : token'.word = token.word)
    (hahead : AheadAt kind other bound cursor cursor')
    (hbudget : 16 * bound + 8 ≤ budget + 1) (hlarger : 16 * bound + 8 ≤ larger + 1) :
    Matches (Node.Respelt zero) (AheadAt kind other (bound - 1))
      (readCall (budget + 1) names token) (readCall (larger + 1) names token') cursor cursor' := by
  have harguments := hreads.arguments names hahead (by omega)
    (by omega : 16 * bound + 7 ≤ larger)
  rw [readCall, readCall, show token'.text = token.text from Token.text_eq hword]
  split
  · exact harguments.bind fun arguments arguments' mid mid' harguments hmid =>
      matches_makePairwise harguments hmid
  · cases Callee.named? token.text with
    | none => exact .none
    | some callee =>
      exact harguments.bind fun arguments arguments' mid mid' harguments hmid =>
        matches_makeCall callee harguments hmid

theorem matches_readIdentifier {token : Token} {rest : List Token}
    (htokens : cursor.tokens = token :: rest) (hkind : token.kind = .identifier)
    (hahead : AheadAt kind other bound cursor cursor')
    (hbudget : 16 * bound + 2 ≤ budget + 1) (hlarger : 16 * bound + 2 ≤ larger + 1) :
    Matches (Node.Respelt zero) (AheadAt kind other (bound - 1))
      (readIdentifier (budget + 1) names) (readIdentifier (larger + 1) names) cursor cursor' := by
  have hpositive := hahead.pos
  obtain ⟨_, _, token', rest', hsame, htokens', hword⟩ := exists_of_signAhead hahead.tokens
  rw [htokens] at hsame
  obtain ⟨rfl, rfl⟩ := List.cons.inj hsame
  have hplain : token.kind.precedesOperand = false := by rw [hkind]; rfl
  have hfinish : token.kind ≠ .finish := by rw [hkind]; simp
  have htext : token'.text = token.text := Token.text_eq hword
  rw [readIdentifier, readIdentifier]
  refine matches_next hahead htokens htokens' hfinish hplain
    fun following following' after after' hrest hrest' hfollowing => ?_
  refine matches_advance_plain hahead htokens htokens' hfinish hplain
    fun mid mid' hmid hmid' hafter => ?_
  have hfollows : following'.isOperator "=>" = following.isOperator "=>" ∧
      following'.kind = following.kind := by
    have hsame : following'.kind = following.kind := Token.kind_eq hfollowing
    rw [Token.isOperator, Token.isOperator, hsame,
      show following'.text = following.text from Token.text_eq hfollowing]
    exact ⟨rfl, rfl⟩
  rw [hfollows.1, hfollows.2, htext]
  split
  · rename_i harrow
    have harrowKind : following.kind = .operator := by
      rw [Token.isOperator, Bool.and_eq_true] at harrow
      exact beq_iff_eq.mp harrow.1
    refine matches_advance hafter (hmid.trans hrest) (hmid'.trans hrest')
      (by rw [harrowKind]; simp) fun mid mid' _ _ hmid _ => ?_
    refine (hreads.operation _ bodyLevel hmid (by omega) (by omega)).bind
      fun body body' mid mid' hbody hmid => ?_
    exact matches_pure (.of_apart (.lambda token.text hbody.apart) rfl rfl rfl)
      (hmid.mono (by omega))
  · split
    · exact matches_pure (.refl _) hafter
    · split
      · have hcall := hreads.call names hword hafter (by omega)
          (by omega : 16 * (bound - 1) + 8 ≤ larger)
        exact hcall.mono fun mid mid' hmid => hmid.mono (by omega)
      · exact matches_readName hword hafter

theorem matches_readPrimary (hahead : AheadAt kind other bound cursor cursor')
    (hbudget : 16 * bound + 3 ≤ budget + 1) (hlarger : 16 * bound + 3 ≤ larger + 1) :
    Matches (Node.Respelt zero) (AheadAt kind other (bound - 1))
      (readPrimary (budget + 1) names) (readPrimary (larger + 1) names) cursor cursor' := by
  have hpositive := hahead.pos
  rw [readPrimary, readPrimary]
  refine matches_current hahead fun token token' rest rest' htokens htokens' hword => ?_
  rw [show token'.kind = token.kind from Token.kind_eq hword,
    show token'.text = token.text from Token.text_eq hword]
  cases hkind : token.kind with
  | int number | float number | string content =>
    exact matches_advance_plain hahead htokens htokens' (by rw [hkind]; simp) (by rw [hkind]; rfl)
      fun mid mid' _ _ hmid => matches_pure (.refl _) hmid
  | bool flag =>
    have hplain : token.kind.precedesOperand = false := by rw [hkind]; rfl
    have hfinish : token.kind ≠ .finish := by rw [hkind]; simp
    refine matches_next hahead htokens htokens' hfinish hplain
      fun following following' _ _ _ _ hfollowing => ?_
    refine matches_advance_plain hahead htokens htokens' hfinish hplain
      fun mid mid' _ _ hmid => ?_
    rw [show following'.kind = following.kind from Token.kind_eq hfollowing]
    split
    · have hcall := hreads.call names hword hmid (by omega)
        (by omega : 16 * (bound - 1) + 8 ≤ larger)
      exact hcall.mono fun mid mid' hmid => hmid.mono (by omega)
    · exact matches_pure (.refl _) hmid
  | identifier => exact hreads.identifier names htokens hkind hahead (by omega) (by omega)
  | leftParen =>
    refine matches_advance hahead htokens htokens' (by rw [hkind]; simp)
      fun mid mid' _ _ hmid _ => ?_
    refine (hreads.operation names 0 hmid (by omega) (by omega)).bind
      fun inner inner' mid mid' hinner hmid => ?_
    refine matches_expect (by simp) hmid fun _ _ mid mid' _ hafter => ?_
    exact matches_pure hinner ((hafter rfl).mono (by omega))
  | leftBracket =>
    refine matches_advance hahead htokens htokens' (by rw [hkind]; simp)
      fun mid mid' _ _ hmid _ => ?_
    refine (hreads.list names (.inr rfl) hmid (by omega) (by omega)).bind
      fun elements elements' mid mid' helements hmid => ?_
    refine matches_expect (by simp) hmid fun _ _ mid mid' _ hafter => ?_
    exact matches_pure (.of_apart (.array (signsApart_of_respelt helements)) rfl rfl rfl)
      ((hafter rfl).mono (by omega))
  | _ => exact .none

end Steps

theorem readsApart {kind other : TokenKind} (hkinds : kind.IsOpposite other) (budget : Nat) :
    ReadsApart kind other kind.isZero budget := by
  induction budget with
  | zero =>
    constructor
    all_goals
      intros
      omega
  | succ budget ih =>
    constructor
    case operation =>
      intro larger bound cursor cursor' names level hstart hbudget hlarger
      obtain ⟨larger, rfl⟩ : ∃ fewer, larger = fewer + 1 := ⟨larger - 1, by omega⟩
      exact matches_readOperation ih names level hstart hbudget hlarger
    case operations =>
      intro larger bound cursor cursor' names level left left' hleft hahead hbudget hlarger
      obtain ⟨larger, rfl⟩ : ∃ fewer, larger = fewer + 1 := ⟨larger - 1, by omega⟩
      exact matches_readOperations ih names level hleft hahead hbudget hlarger
    case operand =>
      intro larger bound cursor cursor' names hstart hbudget hlarger
      obtain ⟨larger, rfl⟩ : ∃ fewer, larger = fewer + 1 := ⟨larger - 1, by omega⟩
      exact matches_readOperand ih names hkinds rfl hstart hbudget hlarger
    case indexes =>
      intro larger bound cursor cursor' names targets hclosed target target' htarget hahead hbudget hlarger
      obtain ⟨larger, rfl⟩ : ∃ fewer, larger = fewer + 1 := ⟨larger - 1, by omega⟩
      exact matches_readIndexes ih names hclosed htarget hahead hbudget hlarger
    case primary =>
      intro larger bound cursor cursor' names hahead hbudget hlarger
      obtain ⟨larger, rfl⟩ : ∃ fewer, larger = fewer + 1 := ⟨larger - 1, by omega⟩
      exact matches_readPrimary ih names hahead hbudget hlarger
    case identifier =>
      intro larger bound cursor cursor' token rest names htokens hkind hahead hbudget hlarger
      obtain ⟨larger, rfl⟩ : ∃ fewer, larger = fewer + 1 := ⟨larger - 1, by omega⟩
      exact matches_readIdentifier ih names htokens hkind hahead hbudget hlarger
    case list =>
      intro larger bound cursor cursor' names closing hclosing hstart hbudget hlarger
      obtain ⟨larger, rfl⟩ : ∃ fewer, larger = fewer + 1 := ⟨larger - 1, by omega⟩
      exact matches_readList ih names hclosing hkinds hstart hbudget hlarger
    case more =>
      intro larger bound cursor cursor' names hahead hbudget hlarger
      obtain ⟨larger, rfl⟩ : ∃ fewer, larger = fewer + 1 := ⟨larger - 1, by omega⟩
      exact matches_readMore ih names hahead hbudget hlarger
    case arguments =>
      intro larger bound cursor cursor' names hahead hbudget hlarger
      obtain ⟨larger, rfl⟩ : ∃ fewer, larger = fewer + 1 := ⟨larger - 1, by omega⟩
      exact matches_readArguments ih names hahead hbudget hlarger
    case call =>
      intro larger bound cursor cursor' names token token' hword hahead hbudget hlarger
      obtain ⟨larger, rfl⟩ : ∃ fewer, larger = fewer + 1 := ⟨larger - 1, by omega⟩
      exact matches_readCall ih names hword hahead hbudget hlarger

end Patchwork
