import Patchwork.Proofs.Expression.RoundTrip
import Patchwork.Proofs.Results

/-!
# Looking one word ahead

What a reader makes of the words it takes does not depend on the place they stand in, nor on
a budget larger than the one it needs.  Of the words after them only the next one matters,
and a word that ends an expression there may be replaced by another one that does.
-/

namespace Patchwork

open Reader

namespace TokenKind

/-- A token that opens a bracket. -/
def Opens (kind : TokenKind) : Prop :=
  kind = .leftParen ∨ kind = .leftBracket

/-- A token that closes a bracket. -/
def Closes (kind : TokenKind) : Prop :=
  kind = .rightParen ∨ kind = .rightBracket

theorem Opens.notFinish {kind : TokenKind} (hkind : kind.Opens) : kind ≠ .finish := by
  rcases hkind with rfl | rfl <;> nofun

theorem Closes.notFinish {kind : TokenKind} (hkind : kind.Closes) : kind ≠ .finish := by
  rcases hkind with rfl | rfl <;> nofun

/-- Whether a token neither opens nor closes a bracket, and is not the end. -/
def isPlain : TokenKind → Bool
  | leftParen | rightParen | leftBracket | rightBracket | finish => false
  | _ => true

theorem notFinish_of_isPlain {kind : TokenKind} (hkind : kind.isPlain = true) :
    kind ≠ .finish := by
  rintro rfl
  cases hkind

end TokenKind

namespace Word

/-- How many brackets are open after a word. -/
def nesting (depth : Nat) (word : Word) : Nat :=
  match word.kind with
  | .leftParen | .leftBracket => depth + 1
  | .rightParen | .rightBracket => depth - 1
  | _ => depth

/-- Some words after which the brackets are open that were open before them. -/
def Nested (words : List Word) : Prop :=
  ∀ depth, words.foldl nesting depth = depth

theorem Nested.nil : Nested [] :=
  fun _ => rfl

theorem Nested.append {words more : List Word} (hwords : Nested words) (hmore : Nested more) :
    Nested (words ++ more) := by
  intro depth
  rw [List.foldl_append, hwords, hmore]

theorem Nested.cons {word : Word} (hword : word.kind.isPlain = true) {words : List Word}
    (hwords : Nested words) : Nested (word :: words) := by
  intro depth
  have hnesting : word.nesting depth = depth := by
    rw [TokenKind.isPlain.eq_def] at hword
    rw [nesting]
    split at hword <;> simp_all
  rw [List.foldl_cons, hnesting, hwords]

theorem Nested.enclosed {opener closer : Word} {words more : List Word}
    (hopens : opener.kind.Opens) (hcloses : closer.kind.Closes) (hwords : Nested words)
    (hmore : Nested more) : Nested (opener :: (words ++ closer :: more)) := by
  intro depth
  have hopen : opener.nesting depth = depth + 1 := by
    rcases hopens with hkind | hkind <;> rw [Word.nesting, hkind]
  have hclose : closer.nesting (depth + 1) = depth := by
    rcases hcloses with hkind | hkind <;> rw [Word.nesting, hkind] <;> rfl
  rw [List.foldl_cons, List.foldl_append, List.foldl_cons, hopen, hwords, hclose, hmore]

/-- The word in front of a procedure. -/
def arrow : Word :=
  operator "->"

/-- One word stands in place of another behind what is read at a level: it is the same, or both
end an expression.  The arrow binds less tightly than any other operator, so it does, too, except
at the level of the arrow itself. -/
def EndsAt (level : Nat) (word other : Word) : Prop :=
  other = word ∨ word.closes = true ∧ (other.closes = true ∨ 0 < level ∧ other = arrow)

theorem EndsAt.mono {level larger : Nat} (hlevel : 0 < level → 0 < larger) {word other : Word}
    (hword : EndsAt level word other) : EndsAt larger word other :=
  hword.imp_right (And.imp_right (Or.imp_right (And.imp_left hlevel)))

/-- The same word. -/
def Same (word other : Word) : Prop :=
  other = word

theorem Same.refl (word : Word) : Same word word :=
  rfl

/-- Whatever the words are. -/
def Any (_ _ : Word) : Prop :=
  True

/-- Only a word that ends an expression is replaced, and by none that makes more of the word
before it. -/
structure Replaces (follows : Word → Word → Prop) : Prop where
  refl : ∀ word, follows word word
  ends : ∀ {word other : Word}, follows word other → other = word ∨
    word.closes = true ∧ other.kind ≠ .leftParen ∧ ¬ (other.kind = .operator ∧ other.text = "=>")

theorem endsOperand_arrow : arrow.EndsOperand :=
  ⟨nofun, nofun, by decide⟩

theorem EndsAt.endsOperand {level : Nat} {word other : Word} (hword : EndsAt level word other) :
    other = word ∨ word.closes = true ∧ other.EndsOperand := by
  refine hword.imp_right (And.imp_right ?_)
  rintro (hother | ⟨-, rfl⟩)
  · exact endsOperand_of_closes hother
  · exact endsOperand_arrow

theorem replaces_endsAt (level : Nat) : Replaces (EndsAt level) where
  refl _ := .inl rfl
  ends hword := hword.endsOperand.imp_right fun ⟨hcloses, hother⟩ =>
    ⟨hcloses, hother.notParen, hother.notArrow⟩

end Word

namespace Reader

variable {Result Next : Type}

theorem current_eq {cursor : Cursor} {token : Token} {others : List Token}
    (htokens : cursor.tokens = token :: others) : current cursor = .ok (token, cursor) := by
  obtain ⟨tokens, fault?⟩ := cursor
  cases htokens
  rfl

theorem stopped_ne_ok {cursor after : Cursor} {result : Result} :
    (stopped : Reader Result) cursor ≠ .ok (result, after) := by
  obtain ⟨tokens, fault?⟩ := cursor
  cases fault? <;> nofun

theorem exists_of_bind {reader : Reader Result} {continued : Result → Reader Next}
    {cursor after : Cursor} {last : Next}
    (hrun : (reader >>= continued) cursor = .ok (last, after)) :
    ∃ result mid, reader cursor = .ok (result, mid) ∧ continued result mid = .ok (last, after) := by
  obtain ⟨⟨result, mid⟩, hfirst, hnext⟩ := exists_of_bind_eq_ok hrun
  exact ⟨result, mid, hfirst, hnext⟩

/-- Two readers that do the same at a place, and then go on alike. -/
theorem bind_congr_at {first second : Reader Result} {next others : Result → Reader Next}
    {cursor : Cursor} (hfirst : first cursor = second cursor)
    (hnext : ∀ result after, first cursor = .ok (result, after) →
      next result after = others result after) :
    (first >>= next) cursor = (second >>= others) cursor := by
  change (first cursor >>= fun step => next step.1 step.2) =
    (second cursor >>= fun step => others step.1 step.2)
  rw [← hfirst]
  cases hrun : first cursor with
  | error fault => rfl
  | ok step => exact hnext step.1 step.2 hrun

theorem exists_of_current {cursor after : Cursor} {token : Token}
    (hrun : current cursor = .ok (token, after)) :
    after = cursor ∧ ∃ others, cursor.tokens = token :: others := by
  obtain ⟨tokens, fault?⟩ := cursor
  cases tokens with
  | nil => exact absurd hrun stopped_ne_ok
  | cons first others =>
    cases hrun
    exact ⟨rfl, others, rfl⟩

theorem exists_of_at? {cursor after : Cursor} {kind : TokenKind} {here : Bool}
    (hrun : at? kind cursor = .ok (here, after)) :
    after = cursor ∧ ∃ token others, cursor.tokens = token :: others ∧
      here = (token.kind == kind) := by
  obtain ⟨token, mid, hcurrent, hhere⟩ := exists_of_bind hrun
  obtain ⟨rfl, others, htokens⟩ := exists_of_current hcurrent
  cases hhere
  exact ⟨rfl, token, others, htokens, rfl⟩

theorem exists_of_next {after : Cursor} {token following : Token} {others : List Token}
    {fault? : Option ScanFault} (hplain : token.kind ≠ .finish)
    (hrun : next ⟨token :: others, fault?⟩ = .ok (following, after)) :
    after = ⟨token :: others, fault?⟩ ∧ ∃ rest, others = following :: rest := by
  have hfinish : token.isFinish = false := by simp [Token.isFinish, hplain]
  cases others with
  | nil =>
    change (if token.isFinish then _ else _ : Reader Token) _ = _ at hrun
    rw [hfinish] at hrun
    exact absurd hrun stopped_ne_ok
  | cons second rest =>
    change Except.ok (if token.isFinish then token else second, _) = _ at hrun
    rw [hfinish] at hrun
    cases hrun
    exact ⟨rfl, rest, rfl⟩

theorem exists_of_advance {after : Cursor} {token given : Token} {others : List Token}
    {fault? : Option ScanFault} (hplain : token.kind ≠ .finish)
    (hrun : advance ⟨token :: others, fault?⟩ = .ok (given, after)) :
    given = token ∧ after = ⟨others, fault?⟩ := by
  have hfinish : token.isFinish = false := by simp [Token.isFinish, hplain]
  cases others with
  | nil =>
    change (if token.isFinish then _ else _ : Reader Token) _ = _ at hrun
    rw [hfinish] at hrun
    exact absurd hrun stopped_ne_ok
  | cons following rest =>
    change (if token.isFinish then _ else _ : Reader Token) _ = _ at hrun
    rw [hfinish] at hrun
    cases hrun
    exact ⟨rfl, rfl⟩

theorem exists_of_expect {cursor after : Cursor} {kind : TokenKind} {fault : ReadingFault}
    {token : Token} (hrun : expect kind fault cursor = .ok (token, after))
    (hkind : kind ≠ .finish) :
    token.kind = kind ∧ ∃ others, cursor.tokens = token :: others ∧
      after = ⟨others, cursor.fault?⟩ := by
  obtain ⟨first, mid, hcurrent, hmoved⟩ := exists_of_bind hrun
  obtain ⟨rfl, others, htokens⟩ := exists_of_current hcurrent
  obtain ⟨tokens, fault?⟩ := mid
  cases htokens
  split at hmoved
  · rename_i hfirst
    rw [beq_iff_eq] at hfirst
    obtain ⟨rfl, rfl⟩ := exists_of_advance (hfirst ▸ hkind) hmoved
    exact ⟨hfirst, others, rfl, rfl⟩
  · cases hmoved

theorem exists_of_expectFinish {cursor after : Cursor} {result : Unit}
    (hrun : expectFinish cursor = .ok (result, after)) :
    after = cursor ∧ ∃ token others, cursor.tokens = token :: others ∧ token.isFinish = true := by
  obtain ⟨token, mid, hcurrent, hchecked⟩ := exists_of_bind hrun
  obtain ⟨rfl, others, htokens⟩ := exists_of_current hcurrent
  cases hfinish : token.isFinish with
  | true =>
    rw [hfinish] at hchecked
    cases hchecked
    exact ⟨rfl, token, others, htokens, hfinish⟩
  | false =>
    rw [hfinish] at hchecked
    cases hchecked

/-! ## Reading the same words again -/

/-- What a reader takes at a cursor, another one takes wherever the same words stand, with the
same result.  The word after those may be one that follows in place of the next word at the
cursor. -/
def Again (follows : Word → Word → Prop) (first second : Reader Result) (cursor : Cursor) : Prop :=
  ∀ result after, first cursor = .ok (result, after) →
    ∃ taken, cursor = ⟨taken ++ after.tokens, after.fault?⟩ ∧
      Word.Nested (taken.map Token.word) ∧
      ∀ next others, after.tokens = next :: others → ∀ word tail, follows next.word word →
        Reads second (taken.map Token.word) (word :: tail) result

section

variable {follows : Word → Word → Prop} {first second : Reader Result} {cursor : Cursor}
  {token : Token} {others : List Token}

theorem again_pure (result : Result) : Again follows (pure result) (pure result) cursor := by
  intro given after hrun
  cases hrun
  exact ⟨[], rfl, .nil, fun _ _ _ _ _ _ => .pure _ _⟩

theorem again_throw (fault : Fault) : Again follows (throw fault) second cursor :=
  fun _ _ hrun => nomatch hrun

theorem Again.mono {allowed : Word → Word → Prop} (hagain : Again follows first second cursor)
    (hallowed : ∀ word other, allowed word other → follows word other) :
    Again allowed first second cursor := by
  intro result after hrun
  obtain ⟨taken, hcursor, hnested, hreads⟩ := hagain result after hrun
  exact ⟨taken, hcursor, hnested, fun next others hafter word tail hword =>
    hreads next others hafter word tail (hallowed _ _ hword)⟩

theorem Again.bind {continued others : Result → Reader Next} (hrefl : ∀ word, follows word word)
    (hfirst : Again follows first second cursor)
    (hnext : ∀ result mid, Again follows (continued result) (others result) mid) :
    Again follows (first >>= continued) (second >>= others) cursor := by
  intro last after hrun
  obtain ⟨result, mid, hresult, hlast⟩ := exists_of_bind hrun
  obtain ⟨taken, rfl, hnested, hreads⟩ := hfirst result mid hresult
  obtain ⟨more, rfl, hmore, hreadsMore⟩ := hnext result mid last after hlast
  refine ⟨taken ++ more, by rw [List.append_assoc], ?_, fun next rest hafter word tail hword => ?_⟩
  · rw [List.map_append]
    exact hnested.append hmore
  rw [List.map_append]
  refine .bind ?_ (hreadsMore next rest hafter word tail hword)
  cases more with
  | nil => exact hreads next rest hafter word tail hword
  | cons token more => exact hreads token _ rfl token.word _ (hrefl _)

/-- The tokens that are taken again start like those that were taken. -/
theorem exists_first {taken rest : List Token} {next : Token} {word : Word} (tail : List Word)
    (htokens : token :: others = taken ++ next :: rest) (hrefl : ∀ word, follows word word)
    (hword : follows next.word word) :
    ∃ start after, taken.map Token.word ++ word :: tail = start :: after ∧
      follows token.word start := by
  cases taken with
  | nil =>
    cases htokens
    exact ⟨word, tail, rfl, hword⟩
  | cons first more =>
    cases htokens
    exact ⟨token.word, _, rfl, hrefl _⟩

theorem eq_of_taken {taken same : List Token} {after : Cursor}
    (htaken : cursor = ⟨taken ++ after.tokens, after.fault?⟩)
    (hsame : cursor = ⟨same ++ after.tokens, after.fault?⟩) : taken = same :=
  List.append_cancel_right (congrArg Cursor.tokens (htaken.symm.trans hsame))

theorem again_current {continued again : Token → Reader Result} (hrefl : ∀ word, follows word word)
    (hnext : ∀ token others, cursor.tokens = token :: others → ∀ other : Token,
      follows token.word other.word → Again follows (continued token) (again other) cursor) :
    Again follows (current >>= continued) (current >>= again) cursor := by
  intro result after hrun
  obtain ⟨token, mid, hcurrent, hresult⟩ := exists_of_bind hrun
  obtain ⟨rfl, others, htokens⟩ := exists_of_current hcurrent
  obtain ⟨taken, hcursor, hnested, -⟩ := hnext token others htokens token (hrefl _) _ _ hresult
  refine ⟨taken, hcursor, hnested, fun next rest hafter word tail hword => ?_⟩
  have hsplit : token :: others = taken ++ next :: rest := by
    rw [← htokens, hcursor, hafter]
  obtain ⟨start, behind, hstart, hfollows⟩ := exists_first tail hsplit hrefl hword
  refine .current hstart fun other hother => ?_
  obtain ⟨same, hsame, -, hreads⟩ :=
    hnext token others htokens other (hother ▸ hfollows) _ _ hresult
  obtain rfl := eq_of_taken hcursor hsame
  exact hreads next rest hafter word tail hword

theorem again_advance {continued again : Token → Reader Result} {fault? : Option ScanFault}
    (hplain : token.kind.isPlain = true)
    (hnext : ∀ other : Token, other.word = token.word →
      Again follows (continued token) (again other) ⟨others, fault?⟩) :
    Again follows (advance >>= continued) (advance >>= again) ⟨token :: others, fault?⟩ := by
  intro result after hrun
  obtain ⟨given, mid, hadvance, hresult⟩ := exists_of_bind hrun
  obtain ⟨rfl, rfl⟩ := exists_of_advance (TokenKind.notFinish_of_isPlain hplain) hadvance
  obtain ⟨taken, hcursor, hnested, -⟩ := hnext given rfl _ _ hresult
  obtain ⟨rfl, rfl⟩ := Cursor.mk.inj hcursor
  refine ⟨given :: taken, rfl, .cons hplain hnested, fun next rest hafter word tail hword => ?_⟩
  refine .advance (by simp) (TokenKind.notFinish_of_isPlain hplain) fun other hother => ?_
  obtain ⟨same, hsame, -, hreads⟩ := hnext other hother _ _ hresult
  obtain rfl := eq_of_taken rfl hsame
  exact hreads next rest hafter word tail hword

/-- A word is moved over after a look at the next one. -/
theorem again_lookahead {continued again : Token → Token → Reader Result}
    {fault? : Option ScanFault} (hrefl : ∀ word, follows word word)
    (hplain : token.kind.isPlain = true)
    (hnext : ∀ following rest, others = following :: rest → ∀ ahead other : Token,
      follows following.word ahead.word → other.word = token.word →
        Again follows (continued following token) (again ahead other) ⟨others, fault?⟩) :
    Again follows (do let following ← next; let token ← advance; continued following token)
      (do let following ← next; let token ← advance; again following token)
      ⟨token :: others, fault?⟩ := by
  intro result after hrun
  obtain ⟨following, mid, hfollowing, hrun⟩ := exists_of_bind hrun
  obtain ⟨rfl, rest, rfl⟩ := exists_of_next (TokenKind.notFinish_of_isPlain hplain) hfollowing
  obtain ⟨given, mid, hadvance, hresult⟩ := exists_of_bind hrun
  obtain ⟨rfl, rfl⟩ := exists_of_advance (TokenKind.notFinish_of_isPlain hplain) hadvance
  obtain ⟨taken, hcursor, hnested, -⟩ :=
    hnext following rest rfl following given (hrefl _) rfl _ _ hresult
  obtain ⟨hsplit, rfl⟩ := Cursor.mk.inj hcursor
  refine ⟨given :: taken, by rw [hsplit]; rfl, .cons hplain hnested, ?_⟩
  intro next rest hafter word tail hword
  rw [hafter] at hsplit
  obtain ⟨start, behind, hstart, hfollows⟩ := exists_first tail hsplit hrefl hword
  have hwords : (given :: taken).map Token.word ++ word :: tail =
      given.word :: start :: behind := by
    rw [List.map_cons, List.cons_append, hstart]
  refine .next hwords (TokenKind.notFinish_of_isPlain hplain) fun ahead hahead => ?_
  refine .advance (by simp) (TokenKind.notFinish_of_isPlain hplain) fun other hother => ?_
  obtain ⟨same, hsame, -, hreads⟩ :=
    hnext following _ rfl ahead other (hahead ▸ hfollows) hother _ _ hresult
  obtain rfl := eq_of_taken hcursor hsame
  exact hreads next _ hafter word tail hword

theorem again_at? {kind : TokenKind} {continued again : Bool → Reader Result}
    (hrefl : ∀ word, follows word word)
    (hnext : ∀ token others, cursor.tokens = token :: others → ∀ other : Token,
      follows token.word other.word →
        Again follows (continued (token.kind == kind)) (again (other.kind == kind)) cursor) :
    Again follows (at? kind >>= continued) (at? kind >>= again) cursor := by
  rw [at?, bind_assoc, bind_assoc]
  simp only [pure_bind]
  exact again_current hrefl hnext

/-- A reader moves over a token, whichever token with the same word that is. -/
structure Moves (reader : Reader Token) (token : Token) : Prop where
  run : ∀ {others : List Token} {fault? : Option ScanFault} {given : Token} {after : Cursor},
    reader ⟨token :: others, fault?⟩ = .ok (given, after) → after = ⟨others, fault?⟩
  reads : ∀ {Next : Type} {continued : Token → Reader Next} {words rest : List Word} {last : Next},
    words ++ rest ≠ [] →
      (∀ given, given.word = token.word → Reads (continued given) words rest last) →
        Reads (reader >>= continued) (token.word :: words) rest last

theorem moves_advance (hkind : token.kind ≠ .finish) : Moves advance token where
  run hrun := (exists_of_advance hkind hrun).2
  reads hmore hnext := .advance hmore hkind hnext

theorem moves_expect {kind : TokenKind} {fault : ReadingFault} (hkind : token.kind = kind)
    (hfinish : kind ≠ .finish) : Moves (expect kind fault) token where
  run hrun := by
    obtain ⟨-, others, htokens, hafter⟩ := exists_of_expect hrun hfinish
    cases htokens
    exact hafter
  reads hmore hnext := .expect hmore hkind hfinish hnext

/-- What stands between an opening and a closing bracket is read up to the closing one, whatever
follows that. -/
theorem again_enclosed {opening : Reader Token} {inner innerAgain : Reader Result}
    {continued again : Result → Reader Next} {inside : Word → Word → Prop} {closing : TokenKind}
    {fault : ReadingFault} {fault? : Option ScanFault} (hopening : Moves opening token)
    (hopens : token.kind.Opens) (hcloses : closing.Closes) (hrefl : ∀ word, inside word word)
    (hinner : Again inside inner innerAgain ⟨others, fault?⟩)
    (hnext : ∀ result mid, Again follows (continued result) (again result) mid) :
    Again follows
      (do let _ ← opening; let result ← inner; let _ ← expect closing fault; continued result)
      (do let _ ← opening; let result ← innerAgain; let _ ← expect closing fault; again result)
      ⟨token :: others, fault?⟩ := by
  intro last after hrun
  obtain ⟨_, mid, hopened, hinside⟩ := exists_of_bind hrun
  obtain rfl := hopening.run hopened
  obtain ⟨result, mid, hresult, hclosing⟩ := exists_of_bind hinside
  obtain ⟨taken, hcursor, hnested, hreads⟩ := hinner result mid hresult
  obtain ⟨rfl, rfl⟩ := Cursor.mk.inj hcursor
  obtain ⟨closer, behind, hexpect, hlast⟩ := exists_of_bind hclosing
  obtain ⟨hkind, rest, hmid, rfl⟩ := exists_of_expect hexpect hcloses.notFinish
  obtain ⟨more, hmore, hnestedMore, hreadsMore⟩ := hnext result _ last after hlast
  obtain ⟨rfl, hfault⟩ := Cursor.mk.inj hmore
  have hcloser : closer.word.kind.Closes := (hkind ▸ hcloses : closer.kind.Closes)
  refine ⟨token :: (taken ++ closer :: more), ?_, ?_, fun next rest hafter word tail hword => ?_⟩
  · rw [hmid, hfault]
    simp
  · rw [List.map_cons, List.map_append, List.map_cons]
    exact .enclosed hopens hcloser hnested hnestedMore
  rw [List.map_cons, List.map_append, List.map_cons]
  refine hopening.reads (by simp) fun _ _ => ?_
  refine .bind (hreads closer _ hmid closer.word _ (hrefl _)) ?_
  exact .expect (by simp) hkind hcloses.notFinish fun _ _ =>
    hreadsMore next rest hafter word tail hword

end

end Reader

end Patchwork
