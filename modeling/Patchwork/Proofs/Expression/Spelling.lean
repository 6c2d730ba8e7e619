import Patchwork.Proofs.Expression.Scanning

/-!
# The words in the text of an expression

Each kind of writable expression is spelled by its words, given that its parts are.
What comes after an expression begins with a closing bracket, a comma, a blank or the
bracket of an index, and ends names and numbers.

Tokens with the words of a writable expression are read as that expression, whatever
their places are, when a word follows that does not go on with it.  A reader is described
by the words it takes and by what it makes of them; the words after those stay.
-/

namespace Patchwork

open Scan

/-- The characters that may stand directly after an expression. -/
def followers : List Char :=
  [')', ']', ',', ' ', '[']

/-- A place where an expression may end. -/
def EndsExpression (rest : List Char) : Prop :=
  ∀ char ∈ rest.head?, char ∈ followers

namespace EndsExpression

variable {rest : List Char}

theorem nil : EndsExpression [] := by
  rintro char ⟨⟩

theorem cons {char : Char} (hchar : char ∈ followers) (rest : List Char) :
    EndsExpression (char :: rest) := by
  rintro other ⟨⟩
  exact hchar

theorem endsNumber (hrest : EndsExpression rest) : EndsNumber rest := by
  have hall : (followers.all fun char => !Text.isDigit char && char != '.') = true := by decide
  intro char hchar
  have hfollower := List.all_eq_true.mp hall char (hrest char hchar)
  simpa only [Bool.and_eq_true, Bool.not_eq_true', bne_iff_ne] using hfollower

theorem endsName (hrest : EndsExpression rest) :
    ∀ char ∈ rest.head?, Text.isWord char = false := by
  have hall : (followers.all fun char => !Text.isWord char) = true := by decide
  intro char hchar
  simpa only [Bool.not_eq_true'] using List.all_eq_true.mp hall char (hrest char hchar)

end EndsExpression

namespace Node

theorem text_integer (labels : Labels) (number : Int) :
    text labels (.literal (.integer number)) = integerText number := by
  rw [text, Value.display]
  rintro content ⟨⟩

theorem text_boolean (labels : Labels) (flag : Bool) :
    text labels (.literal (.boolean flag)) = if flag then "true" else "false" := by
  rw [text, Value.display]
  rintro content ⟨⟩

theorem isWord_boolean (flag : Bool) : IsWord (if flag then "true" else "false") := by
  cases flag with
  | true => exact .predicate_name .always
  | false => exact .predicate_name .never

/-- The text of an expression is scanned as its words wherever an operand may start and
an expression may end. -/
def IsSpelled (labels : Labels) (node : Node) : Prop :=
  ∀ (previous : Option TokenKind) (rest : List Char), operandMayStart previous = true →
    EndsExpression rest →
      ∃ last, Spells previous ((node.text labels).toList ++ rest) node.words last rest

/-- The characters of further expressions, each after a comma and a blank. -/
def moreChars (labels : Labels) : List Node → List Char
  | [] => []
  | first :: rest => ',' :: ' ' :: ((first.text labels).toList ++ moreChars labels rest)

theorem toList_joined_nodeTexts (labels : Labels) (first : Node) (rest : List Node) :
    (Text.joined ", " (nodeTexts labels (first :: rest))).toList =
      (first.text labels).toList ++ moreChars labels rest := by
  induction rest generalizing first with
  | nil => simp [nodeTexts, Text.joined, moreChars]
  | cons second rest ih =>
    have hjoined : Text.joined ", " (nodeTexts labels (first :: second :: rest)) =
        first.text labels ++ ", " ++ Text.joined ", " (nodeTexts labels (second :: rest)) := rfl
    rw [hjoined, String.toList_append, ih, moreChars]
    simp [String.toList_append]

section

variable {labels : Labels} {previous : Option TokenKind} {rest : List Char} {nodes : List Node}

theorem endsExpression_moreChars (nodes : List Node) (hrest : EndsExpression rest) :
    EndsExpression (moreChars labels nodes ++ rest) := by
  cases nodes with
  | nil => exact hrest
  | cons first others => exact .cons (by decide) _

theorem spells_more (hnodes : ∀ node ∈ nodes, node.IsSpelled labels)
    (hrest : EndsExpression rest) :
    ∃ last, Spells previous (moreChars labels nodes ++ rest) (moreWords nodes) last rest := by
  induction nodes generalizing previous with
  | nil => exact ⟨previous, .done previous rest⟩
  | cons first others ih =>
    obtain ⟨middle, hfirst⟩ := hnodes first List.mem_cons_self (some .comma) _ rfl
      (endsExpression_moreChars others hrest)
    have hothers : ∃ last, Spells middle _ _ last rest :=
      ih fun node hnode => hnodes node (List.mem_cons_of_mem _ hnode)
    obtain ⟨last, hothers⟩ := hothers
    rw [moreChars, moreWords, List.cons_append, List.cons_append, List.append_assoc]
    exact ⟨last, .punctuation rfl (.blank (by decide) (hfirst.trans hothers))⟩

theorem spells_list (hnodes : ∀ node ∈ nodes, node.IsSpelled labels)
    (hprevious : operandMayStart previous = true) (hrest : EndsExpression rest) :
    ∃ last, Spells previous ((Text.joined ", " (nodeTexts labels nodes)).toList ++ rest)
      (listWords nodes) last rest := by
  cases nodes with
  | nil => exact ⟨previous, .done previous rest⟩
  | cons first others =>
    obtain ⟨middle, hfirst⟩ := hnodes first List.mem_cons_self previous _ hprevious
      (endsExpression_moreChars others hrest)
    have hothers : ∃ last, Spells middle _ _ last rest :=
      spells_more (fun node hnode => hnodes node (List.mem_cons_of_mem _ hnode)) hrest
    obtain ⟨last, hothers⟩ := hothers
    rw [toList_joined_nodeTexts, listWords, List.append_assoc]
    exact ⟨last, hfirst.trans hothers⟩

/-- A call is spelled when its arguments are. -/
theorem spells_callText {name : String} (hname : IsWord name)
    (harguments : ∀ node ∈ nodes, node.IsSpelled labels) :
    ∃ last, Spells previous ((callText name (nodeTexts labels nodes)).toList ++ rest)
      (.named name :: .leftParen :: (listWords nodes ++ [.rightParen])) last rest := by
  have hchars : (callText name (nodeTexts labels nodes)).toList ++ rest = name.toList ++
      '(' :: ((Text.joined ", " (nodeTexts labels nodes)).toList ++ ')' :: rest) := by
    simp [callText, String.toList_append]
  have hlist : Spells (some .leftParen) _ (listWords nodes ++ [.rightParen]) _ rest :=
    .closed rfl (spells_list harguments rfl (.cons (by decide : ')' ∈ followers) rest))
  have hopen : ∀ char ∈ ('(' :: ((Text.joined ", " (nodeTexts labels nodes)).toList ++
      ')' :: rest)).head?, Text.isWord char = false := by
    rintro char ⟨⟩
    decide
  rw [hchars]
  exact ⟨_, .name hname hopen (.punctuation rfl hlist)⟩

end

/-- Whether the first character would not make a longer operator of one before it. -/
def StartsApart (chars : List Char) : Prop :=
  ∀ char ∈ chars.head?, char ≠ '=' ∧ char ≠ '>'

theorem StartsApart.cons {char : Char} (hchar : char ≠ '=' ∧ char ≠ '>') (others : List Char) :
    StartsApart (char :: others) := by
  rintro other ⟨⟩
  exact hchar

theorem StartsApart.append {chars others : List Char} (hchars : StartsApart chars)
    (hothers : StartsApart others) : StartsApart (chars ++ others) := by
  cases chars with
  | nil => exact hothers
  | cons char chars => exact .cons (hchars char rfl) _

theorem StartsApart.of_isWord {text : String} (htext : IsWord text) :
    StartsApart text.toList := by
  obtain ⟨first, others, hchars, hletter⟩ := htext.exists_letter
  rw [hchars]
  refine .cons ⟨?_, ?_⟩ others
  all_goals
    rintro rfl
    exact absurd hletter (by decide)

theorem StartsApart.of_endsExpression {rest : List Char} (hrest : EndsExpression rest) :
    StartsApart rest := by
  have hall : (followers.all fun char => char != '=' && char != '>') = true := by decide
  intro char hchar
  have hfollower := List.all_eq_true.mp hall char (hrest char hchar)
  simpa only [Bool.and_eq_true, bne_iff_ne] using hfollower

theorem StartsApart.not_mem_pairOperators {chars : List Char} (hchars : StartsApart chars)
    (operator : UnaryOperator) : operator.symbol.toList ++ chars.take 1 ∉ pairOperators := by
  cases chars with
  | nil => cases operator <;> decide
  | cons char others =>
    obtain ⟨hequal, hgreater⟩ := hchars char rfl
    cases operator <;> simp [UnaryOperator.symbol, pairOperators, hequal, hgreater]

theorem startsApart_callText {name : String} (hname : IsWord name) (arguments : List String) :
    StartsApart (callText name arguments).toList := by
  simp only [callText, String.toList_append, List.append_assoc]
  exact .append (.of_isWord hname) (.cons (by decide) _)

namespace Writable

variable {names : Names} {node : Node}

theorem startsApart_text (labels : Labels) (hnode : node.Writable names) :
    StartsApart (node.text labels).toList := by
  induction hnode with
  | integer number =>
    have hdigits : StartsApart (decimalDigits number.natAbs) := by
      intro char hchar
      have hdigit := isDigit_of_mem_decimalDigits (List.mem_of_mem_head? hchar)
      constructor
      all_goals
        rintro rfl
        exact absurd hdigit (by decide)
    rw [text_integer, toList_integerText]
    split_ifs
    · exact .cons (by decide) _
    · exact hdigits
  | boolean flag =>
    rw [text_boolean]
    exact .of_isWord (isWord_boolean flag)
  | parameter hname _ =>
    rw [text]
    exact .of_isWord hname.toIsWord
  | call _ _ _ =>
    rw [text]
    exact startsApart_callText (.function_name _) _
  | test _ _ _ =>
    rw [text]
    exact startsApart_callText (.predicate_name _) _
  | string | array | not | negative | binary =>
    simp only [text, String.toList_append, List.append_assoc]
    exact .cons (by decide) _
  | lambda hname _ _ =>
    simp only [text, String.toList_append, List.append_assoc]
    exact .append (.of_isWord hname.toIsWord) (.cons (by decide) _)
  | entry htable _ _ =>
    simp only [text, String.toList_append, List.append_assoc]
    exact .append (.of_isWord htable.toIsWord) (.cons (by decide) _)
  | index _ _ _ htarget _ =>
    simp only [text, String.toList_append, List.append_assoc]
    exact .append htarget (.cons (by decide) _)

/-- Scanning the text of a writable expression gives its words. -/
theorem isSpelled (hnode : node.Writable names) : node.IsSpelled names.labels := by
  induction hnode with
  | integer number =>
    intro previous rest hprevious hrest
    rw [text_integer]
    exact ⟨_, .integer number hprevious hrest.endsNumber (.done _ _)⟩
  | boolean flag =>
    intro previous rest _ hrest
    rw [text_boolean]
    exact ⟨_, .name (isWord_boolean flag) hrest.endsName (.done _ _)⟩
  | string hcontent =>
    intro previous rest _ _
    exact ⟨_, .quoted hcontent (.done _ _)⟩
  | parameter hname _ =>
    intro previous rest _ hrest
    exact ⟨_, .name hname.toIsWord hrest.endsName (.done _ _)⟩
  | @array names elements _ helements =>
    intro previous rest _ _
    have hlist : Spells (some .leftBracket) _ (listWords elements ++ [.rightBracket]) _ rest :=
      .closed rfl (spells_list helements rfl (.cons (by decide : ']' ∈ followers) rest))
    simp only [text, String.toList_append, List.append_assoc]
    exact ⟨_, .punctuation rfl hlist⟩
  | call _ _ harguments =>
    intro previous rest _ _
    exact spells_callText (.function_name _) harguments
  | test _ _ harguments =>
    intro previous rest _ _
    exact spells_callText (.predicate_name _) harguments
  | @lambda names name body hname _ hbody =>
    intro previous rest _ hrest
    obtain ⟨last, hbody⟩ := hbody (some .operator) rest rfl hrest
    have harrow : ∀ char ∈ (" => ".toList ++ ((body.text names.labels).toList ++ rest)).head?,
        Text.isWord char = false := by
      rintro char ⟨⟩
      decide
    simp only [text, String.toList_append, List.append_assoc]
    exact ⟨last, .name hname.toIsWord harrow
      (.blank (by decide) (.pairOperator (by decide) (.blank (by decide) hbody)))⟩
  | @not names operand hwritable _ hoperand =>
    intro previous rest _ hrest
    obtain ⟨last, hoperand⟩ := hoperand (some .operator) rest rfl hrest
    have hapart : StartsApart ((operand.text names.labels).toList ++ rest) :=
      (hwritable.startsApart_text names.labels).append (.of_endsExpression hrest)
    simp only [text, String.toList_append, List.append_assoc]
    exact ⟨last, .singleOperator (by decide) (hapart.not_mem_pairOperators .not)
      (fun hminus => absurd hminus (by decide)) hoperand⟩
  | @negative names operand hwritable _ hdigit hoperand =>
    intro previous rest _ hrest
    obtain ⟨last, hoperand⟩ := hoperand (some .operator) rest rfl hrest
    have hapart : StartsApart ((operand.text names.labels).toList ++ rest) :=
      (hwritable.startsApart_text names.labels).append (.of_endsExpression hrest)
    have hdigit : startsWithDigit ((operand.text names.labels).toList ++ rest) = false :=
      startsWithDigit_append hdigit hrest.endsNumber
    simp only [text, String.toList_append, List.append_assoc]
    exact ⟨last, .singleOperator (by decide) (hapart.not_mem_pairOperators .negative)
      (fun _ => hdigit) hoperand⟩
  | @binary names operator left right _ _ _ _ hleft hright =>
    intro previous rest _ _
    have hright : Spells (some .operator) _ (right.words ++ [.rightParen]) _ rest :=
      .closed rfl (hright (some .operator) _ rfl (.cons (by decide : ')' ∈ followers) rest))
    obtain ⟨middle, hleft⟩ := hleft (some .leftParen)
      (' ' :: (operator.symbol.toList ++ ' ' ::
        ((right.text names.labels).toList ++ ')' :: rest))) rfl (.cons (by decide) _)
    have hbetween : Spells middle (' ' :: _) (.operator operator.symbol :: _) _ rest :=
      .blank (by decide) (.binaryOperator operator hright)
    simp only [text, String.toList_append, List.append_assoc]
    exact ⟨_, .punctuation rfl (hleft.trans hbetween)⟩
  | @entry names table position htable _ hposition =>
    intro previous rest _ _
    have hopen : ∀ char ∈ ("[".toList ++ ((position.text names.labels).toList ++
        ("]".toList ++ rest))).head?, Text.isWord char = false := by
      rintro char ⟨⟩
      decide
    have hposition : Spells (some .leftBracket) _ (position.words ++ [.rightBracket]) _ rest :=
      .closed rfl (hposition _ _ rfl (.cons (by decide : ']' ∈ followers) rest))
    simp only [text, String.toList_append, List.append_assoc]
    exact ⟨_, .name htable.toIsWord hopen (.punctuation rfl hposition)⟩
  | @index names target position _ _ _ htarget hposition =>
    intro previous rest hprevious _
    have hposition : Spells (some .leftBracket) _ (position.words ++ [.rightBracket]) _ rest :=
      .closed rfl (hposition _ _ rfl (.cons (by decide : ']' ∈ followers) rest))
    obtain ⟨middle, htarget⟩ := htarget previous
      ('[' :: ((position.text names.labels).toList ++ ']' :: rest)) hprevious (.cons (by decide) _)
    simp only [text, String.toList_append, List.append_assoc]
    exact ⟨_, htarget.trans (.punctuation rfl hposition)⟩

/-- Scanning the whole text of a writable expression gives its words and the end. -/
theorem scan_text (hnode : node.Writable names) :
    ∃ tokens column, tokens.map Token.word = node.words ∧
      Scan.ofText (node.text names.labels) = ⟨tokens ++ [⟨.finish, "", column⟩], none⟩ := by
  obtain ⟨last, hspells⟩ := hnode.isSpelled none [] rfl .nil
  rw [List.append_nil] at hspells
  exact ofText_of_spells hspells

end Writable

end Node

/-! ## Reading an expression from its words -/

namespace Token

theorem kind_eq {token : Token} {word : Word} (hword : token.word = word) :
    token.kind = word.kind := congrArg Word.kind hword

theorem text_eq {token : Token} {word : Word} (hword : token.word = word) :
    token.text = word.text := congrArg Word.text hword

end Token

namespace Reader

/-- A reader takes some words in front of others and gives a result. -/
def Reads {Result : Type} (reader : Reader Result) (words rest : List Word) (result : Result) :
    Prop :=
  ∀ (front back : List Token) (fault? : Option ScanFault), front.map Token.word = words →
    back.map Token.word = rest →
      reader ⟨front ++ back, fault?⟩ = .ok (result, ⟨back, fault?⟩)

namespace Reads

variable {Result Next : Type} {reader : Reader Result} {continued : Result → Reader Next}
  {words more rest tail : List Word} {word following : Word} {result : Result} {last : Next}

theorem pure (result : Result) (rest : List Word) : Reads (Pure.pure result) [] rest result := by
  intro front back fault? hfront _
  rw [List.map_eq_nil_iff.mp hfront]
  rfl

theorem bind (hreader : Reads reader words (more ++ rest) result)
    (hnext : Reads (continued result) more rest last) :
    Reads (reader >>= continued) (words ++ more) rest last := by
  intro front back fault? hfront hback
  obtain ⟨early, late, rfl, hearly, hlate⟩ := List.map_eq_append_iff.mp hfront
  have hread := hreader early (late ++ back) fault? hearly (by rw [List.map_append, hlate, hback])
  rw [List.append_assoc]
  change (reader _ >>= fun step => continued step.1 step.2) = _
  rw [hread]
  exact hnext late back fault? hlate hback

/-- Nothing is taken after the first step. -/
theorem andThen (hreader : Reads reader words rest result)
    (hnext : Reads (continued result) [] rest last) :
    Reads (reader >>= continued) words rest last := by
  have hread : Reads (reader >>= continued) (words ++ []) rest last := .bind hreader hnext
  rwa [List.append_nil] at hread

/-- The first of the tokens whose words are known. -/
theorem exists_token {front back : List Token} (hfront : front.map Token.word = words)
    (hback : back.map Token.word = rest) (hword : words ++ rest = word :: tail) :
    ∃ token others, front ++ back = token :: others ∧ token.word = word ∧
      others.map Token.word = tail := by
  have hall : (front ++ back).map Token.word = word :: tail := by
    rw [List.map_append, hfront, hback, hword]
  exact List.map_eq_cons_iff.mp hall

theorem current {continued : Token → Reader Next} (hword : words ++ rest = word :: tail)
    (hnext : ∀ token, token.word = word → Reads (continued token) words rest last) :
    Reads (Reader.current >>= continued) words rest last := by
  intro front back fault? hfront hback
  obtain ⟨token, others, htokens, htoken, -⟩ := exists_token hfront hback hword
  have hcurrent : Reader.current ⟨front ++ back, fault?⟩ =
      .ok (token, ⟨front ++ back, fault?⟩) := by
    rw [htokens]
    rfl
  change (Reader.current _ >>= fun step => continued step.1 step.2) = _
  rw [hcurrent]
  exact hnext token htoken front back fault? hfront hback

theorem next {continued : Token → Reader Next} (hword : words ++ rest = word :: following :: tail)
    (hkind : word.kind ≠ .finish)
    (hnext : ∀ token, token.word = following → Reads (continued token) words rest last) :
    Reads (Reader.next >>= continued) words rest last := by
  intro front back fault? hfront hback
  obtain ⟨token, others, htokens, htoken, hothers⟩ := exists_token hfront hback hword
  obtain ⟨second, others, rfl, hsecond, -⟩ := List.map_eq_cons_iff.mp hothers
  have hfinish : token.isFinish = false := by
    simp [Token.isFinish, Token.kind_eq htoken, hkind]
  have hcurrent : Reader.next ⟨front ++ back, fault?⟩ =
      .ok (second, ⟨front ++ back, fault?⟩) := by
    rw [htokens]
    change Except.ok (if token.isFinish then token else second, _) = _
    rw [hfinish]
    rfl
  change (Reader.next _ >>= fun step => continued step.1 step.2) = _
  rw [hcurrent]
  exact hnext second hsecond front back fault? hfront hback

theorem advance {continued : Token → Reader Next} (hmore : words ++ rest ≠ [])
    (hkind : word.kind ≠ .finish)
    (hnext : ∀ token, token.word = word → Reads (continued token) words rest last) :
    Reads (Reader.advance >>= continued) (word :: words) rest last := by
  intro front back fault? hfront hback
  obtain ⟨token, front, rfl, htoken, hfront⟩ := List.map_eq_cons_iff.mp hfront
  obtain ⟨following, tail, hword⟩ := List.exists_cons_of_ne_nil hmore
  obtain ⟨second, others, htokens, -, -⟩ := exists_token hfront hback hword
  have hfinish : token.isFinish = false := by
    simp [Token.isFinish, Token.kind_eq htoken, hkind]
  have hadvance : Reader.advance ⟨token :: (front ++ back), fault?⟩ =
      .ok (token, ⟨front ++ back, fault?⟩) := by
    rw [htokens]
    change (if token.isFinish then _ else _ : Reader Token) _ = _
    rw [hfinish]
    rfl
  change (Reader.advance ⟨token :: (front ++ back), fault?⟩ >>= fun step =>
    continued step.1 step.2) = _
  rw [hadvance]
  exact hnext token htoken front back fault? hfront hback

theorem at? {kind : TokenKind} {continued : Bool → Reader Next}
    (hword : words ++ rest = word :: tail)
    (hnext : Reads (continued (word.kind == kind)) words rest last) :
    Reads (Reader.at? kind >>= continued) words rest last := by
  have hcurrent : Reads (Reader.current >>= fun token => continued (token.kind == kind))
      words rest last :=
    current hword fun token htoken => by rwa [Token.kind_eq htoken]
  rw [Reader.at?, bind_assoc]
  simp only [pure_bind]
  exact hcurrent

theorem expect {kind : TokenKind} {fault : ReadingFault} {continued : Token → Reader Next}
    (hmore : words ++ rest ≠ []) (hkind : word.kind = kind) (hfinish : kind ≠ .finish)
    (hnext : ∀ token, token.word = word → Reads (continued token) words rest last) :
    Reads (Reader.expect kind fault >>= continued) (word :: words) rest last := by
  have hread : Reads (Reader.current >>= fun token =>
      (if token.kind == kind then Reader.advance else failAt token fault) >>= continued)
      (word :: words) rest last := by
    refine current rfl fun token htoken => ?_
    rw [Token.kind_eq htoken, hkind, if_pos (beq_self_eq_true kind)]
    exact advance hmore (hkind ▸ hfinish) hnext
  rw [Reader.expect, bind_assoc]
  exact hread

end Reads

end Reader

end Patchwork
