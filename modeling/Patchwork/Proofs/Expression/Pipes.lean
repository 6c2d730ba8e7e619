import Patchwork.Proofs.Expression.Operands

/-!
# Groups with arrows behind them

Each arrow leads from a group to a procedure call.  The arrows behind a group are read one after
the other, each with its call, so arrows that can be read on their own can be read behind other
arrows, and mean the same there.
-/

namespace Patchwork

open Reader

/-- A procedure call behind an arrow. -/
structure PipeStep where
  procedure : Procedure
  arguments : List Node
  pairwise : Bool

namespace Node

/-- An expression with arrows behind it. -/
def piped (left : Node) (steps : List PipeStep) : Node :=
  steps.foldl (fun left step => .pipe left step.procedure step.arguments step.pairwise) left

theorem piped_cons (left : Node) (step : PipeStep) (steps : List PipeStep) :
    left.piped (step :: steps) =
      (Node.pipe left step.procedure step.arguments step.pairwise).piped steps := rfl

theorem piped_append (left : Node) (steps more : List PipeStep) :
    left.piped (steps ++ more) = (left.piped steps).piped more :=
  List.foldl_append

theorem producesGroup_piped {left : Node} (hleft : left.producesGroup = true)
    (steps : List PipeStep) : (left.piped steps).producesGroup = true := by
  induction steps generalizing left with
  | nil => exact hleft
  | cons step steps ih => exact ih rfl

end Node

theorem Connective.word_of_ofToken?_arrow {token : Token} (htoken : ofToken? token = some .arrow) :
    token.word = .arrow := by
  unfold ofToken? at htoken
  split_ifs at htoken with hkind harrow
  · rw [Token.word, eq_of_beq hkind, eq_of_beq harrow]
    rfl
  · obtain ⟨operator, -, hoperator⟩ := Option.map_eq_some_iff.mp htoken
    cases hoperator

/-- Only a procedure call stands behind an arrow, and only a group in front of one. -/
theorem exists_of_makePipe {names : Names} {token : Token} {left right joined : Node}
    {cursor after : Cursor} (hrun : makePipe names token left right cursor = .ok (joined, after)) :
    ∃ step : PipeStep, right = .procedure step.procedure step.arguments step.pairwise ∧
      joined = left.piped [step] ∧ left.producesGroup = true ∧ after = cursor := by
  unfold makePipe at hrun
  split at hrun
  · rename_i procedure arguments pairwise
    split at hrun
    · rename_i hgroup
      cases hrun
      exact ⟨⟨procedure, arguments, pairwise⟩, rfl, rfl, hgroup, rfl⟩
    · cases hrun
  · cases hrun

/-- Some words are arrows with procedure calls: behind a group they are read as those, and what
may stand behind them is read on. -/
def ReadsSteps (names : Names) (budget : Nat) (words : List Word) (steps : List PipeStep) : Prop :=
  ∀ larger, budget ≤ larger → ∀ left : Node, left.producesGroup = true →
    ∀ {more rest : List Word} {result : Node} {word : Word} {tail : List Word},
      more ++ rest = word :: tail → word.closes = true ∨ word = .arrow →
      (∀ remaining, larger ≤ remaining + words.length →
        Reads (readOperations remaining names 0 (left.piped steps)) more rest result) →
      Reads (readOperations larger names 0 left) (words ++ more) rest result

/-- One more arrow with its call in front of others. -/
theorem readsSteps_cons {names : Names} {budget : Nat} {step : PipeStep} {steps : List PipeStep}
    {inner taken : List Token} {mid after : Cursor} {fault? : Option ScanFault}
    (hcall : readOperation budget names (Connective.arrow.level + 1)
      ⟨inner ++ mid.tokens, fault?⟩ =
        .ok (.procedure step.procedure step.arguments step.pairwise, mid))
    (hmid : mid = ⟨taken ++ after.tokens, after.fault?⟩)
    (hends : ∃ token ∈ after.tokens.head?, token.word.closes = true)
    (hsteps : ReadsSteps names budget (taken.map Token.word) steps) :
    ReadsSteps names (budget + 1) (.arrow :: (inner.map Token.word ++ taken.map Token.word))
      (step :: steps) := by
  intro larger hlarger left hleft more rest result word tail hmore hword hnext
  obtain ⟨larger, rfl⟩ := Nat.exists_eq_add_of_le' (Nat.one_le_of_lt hlarger)
  have hbudget : budget ≤ larger := Nat.le_of_succ_le_succ hlarger
  obtain ⟨same, hsame, -, hagain⟩ := (readsAgain hbudget).operation names _ _ _ _ hcall
  obtain rfl := List.append_cancel_right (congrArg Cursor.tokens hsame)
  have hright : Reads (readOperation larger names (Connective.arrow.level + 1))
      (inner.map Token.word) ((taken.map Token.word ++ more) ++ rest)
      (.procedure step.procedure step.arguments step.pairwise) := by
    rw [List.append_assoc, hmore]
    cases taken with
    | cons next taken => exact hagain next _ (by rw [hmid]; rfl) next.word _ (.inl rfl)
    | nil =>
      obtain ⟨next, hhead, hcloses⟩ := hends
      obtain ⟨behind, htokens⟩ := List.head?_eq_some_iff.mp hhead
      exact hagain next behind (by rw [hmid]; exact htokens) word tail
        (.inr ⟨hcloses, hword.imp_right fun harrow => ⟨Nat.succ_pos _, harrow⟩⟩)
  rw [List.cons_append, readOperations]
  refine .current rfl fun token htoken => ?_
  rw [Connective.ofToken?_arrow htoken]
  dsimp only
  rw [if_neg (Nat.not_lt_zero _), List.append_assoc]
  refine .advance (by simp [hmore]) nofun fun _ _ => .bind hright ?_
  have hjoined : makeJoined names token .arrow left
      (.procedure step.procedure step.arguments step.pairwise) =
        (pure (left.piped [step]) : Reader Node) := if_pos hleft
  rw [hjoined, pure_bind]
  refine hsteps larger hbudget (left.piped [step]) rfl hmore hword fun remaining hremaining => ?_
  refine hnext remaining ?_
  simp only [List.length_cons, List.length_append]
  omega

/-- What stands behind a group is either no group any more or arrows with procedure calls. -/
theorem exists_steps {names : Names} {budget : Nat} {left node : Node} {cursor after : Cursor}
    (hrun : readOperations budget names 0 left cursor = .ok (node, after))
    (hends : ∃ token ∈ after.tokens.head?, token.word.closes = true) :
    (∃ operator first second, node = .binary operator first second) ∨
      ∃ steps taken, node = left.piped steps ∧ (steps ≠ [] → left.producesGroup = true) ∧
        cursor = ⟨taken ++ after.tokens, after.fault?⟩ ∧
        ReadsSteps names budget (taken.map Token.word) steps := by
  induction budget generalizing left cursor with
  | zero => cases hrun
  | succ budget ih =>
    rw [readOperations] at hrun
    obtain ⟨token, mid, hcurrent, hread⟩ := exists_of_bind hrun
    obtain ⟨rfl, others, htokens⟩ := exists_of_current hcurrent
    obtain ⟨tokens, fault?⟩ := mid
    cases htokens
    cases hoperator : Connective.ofToken? token with
    | none =>
      rw [hoperator] at hread
      cases hread
      refine .inr ⟨[], [], rfl, fun hsteps => absurd rfl hsteps, rfl, ?_⟩
      exact fun larger _ left _ _ _ _ _ _ _ _ hnext => hnext larger (Nat.le_add_right _ _)
    | some operator =>
      rw [hoperator] at hread
      dsimp only at hread
      rw [if_neg (Nat.not_lt_zero _)] at hread
      obtain ⟨_, mid, hmoved, hbehind⟩ := exists_of_bind hread
      have hplain : token.kind ≠ .finish := by
        rw [Connective.kind_of_ofToken? hoperator]
        nofun
      obtain ⟨-, rfl⟩ := exists_of_advance hplain hmoved
      obtain ⟨right, mid, hright, hmaking⟩ := exists_of_bind hbehind
      obtain ⟨joined, last, hjoined, hlater⟩ := exists_of_bind hmaking
      cases operator with
      | operator between =>
        cases hjoined
        refine .inl ?_
        obtain hbinary | ⟨steps, taken, rfl, hsteps, -⟩ := ih hlater
        · exact hbinary
        · -- No arrow is read behind an expression with another operator.
          cases steps with
          | nil => exact ⟨_, _, _, rfl⟩
          | cons step steps => exact absurd (hsteps (List.cons_ne_nil _ _)) nofun
      | arrow =>
        obtain ⟨step, rfl, rfl, hleft, rfl⟩ := exists_of_makePipe hjoined
        obtain hbinary | ⟨steps, taken, rfl, -, hlast, hreads⟩ := ih hlater
        · exact .inl hbinary
        obtain ⟨inner, hinner, -⟩ :=
          (readsAgain (Nat.le_refl _)).operation names _ _ _ _ hright
        obtain ⟨rfl, rfl⟩ := Cursor.mk.inj hinner
        refine .inr ⟨step :: steps, token :: (inner ++ taken), rfl, fun _ => hleft, ?_, ?_⟩
        · rw [hlast]
          simp
        have hword := Connective.word_of_ofToken?_arrow hoperator
        rw [List.map_cons, List.map_append, hword]
        exact readsSteps_cons hright hlast hends hreads

/-! ## What stands in front of the arrows -/

/-- The value a token of a kind stands for by itself. -/
def TokenKind.literal? : TokenKind → Option Value
  | .int number => some (.integer number)
  | .float number => some (.float number)
  | .string content => some (.string content)
  | .bool flag => some (.boolean flag)
  | _ => none

theorem TokenKind.exists_literal {kind : TokenKind} (hkind : kind.IsNumber) :
    ∃ value, kind.literal? = some value := by
  cases kind with
  | int | float => exact ⟨_, rfl⟩
  | _ => exact hkind.elim

/-- What the name of a value is read as. -/
def Value.asNode : Value → Node
  | .group members => .group members
  | value => .literal value

theorem producesGroup_of_readIndexes {names : Names} {budget : Nat} {target node : Node}
    {cursor after : Cursor} (htarget : target.producesGroup = false)
    (hrun : readIndexes budget names target cursor = .ok (node, after)) :
    node.producesGroup = false := by
  induction budget generalizing target cursor with
  | zero => cases hrun
  | succ budget ih =>
    rw [readIndexes] at hrun
    obtain ⟨here, mid, -, hread⟩ := exists_of_bind hrun
    split_ifs at hread
    · obtain ⟨_, _, -, hinside⟩ := exists_of_bind hread
      obtain ⟨position, _, -, hclosing⟩ := exists_of_bind hinside
      obtain ⟨_, _, -, hlater⟩ := exists_of_bind hclosing
      exact ih rfl hlater
    · cases hread
      exact htarget

/-- What starts with a number is no group. -/
theorem producesGroup_of_number {names : Names} {budget : Nat} {token : Token}
    {others : List Token} {fault? : Option ScanFault} {node : Node} {after : Cursor}
    (hnumber : token.kind.IsNumber)
    (hrun : readOperand (budget + 2) names ⟨token :: others, fault?⟩ = .ok (node, after)) :
    node.producesGroup = false := by
  have hkind : token.kind ≠ .operator := by
    intro hkind
    rw [hkind] at hnumber
    exact hnumber
  obtain ⟨target, mid, htarget, hindexes⟩ := exists_of_readOperand hkind hrun
  refine producesGroup_of_readIndexes ?_ hindexes
  rw [readPrimary] at htarget
  obtain ⟨first, _, hcurrent, hread⟩ := exists_of_bind htarget
  cases hcurrent
  cases hvalue : token.kind with
  | int number =>
    simp only [hvalue] at hread
    obtain ⟨_, _, -, hread⟩ := exists_of_bind hread
    cases hread
    rfl
  | float number =>
    simp only [hvalue] at hread
    obtain ⟨_, _, -, hread⟩ := exists_of_bind hread
    cases hread
    rfl
  | _ =>
    rw [hvalue] at hnumber
    exact hnumber.elim

section

variable {names : Names} {name : String} {budget : Nat} {word : Word}

/-- A literal alone is its value. -/
theorem reads_literal {kind : TokenKind} {value : Value} (hliteral : kind.literal? = some value)
    (hword : word.EndsOperand) (tail : List Word) :
    Reads (readOperand (budget + 2) names) [⟨kind, name⟩] (word :: tail) (.literal value) := by
  have hoperator : kind ≠ .operator := by
    rintro rfl
    cases hliteral
  rw [readOperand]
  refine .current rfl fun token htoken => ?_
  have hkind : token.kind = kind := Token.kind_eq htoken
  rw [if_neg (by simp [hkind, hoperator])]
  refine .bind (?_ : Reads _ [⟨kind, name⟩] _ (.literal value))
    (readIndexes_stops (Nat.succ_pos _) hword.notBracket)
  rw [readPrimary]
  refine .current rfl fun token htoken => ?_
  have hkind : token.kind = kind := Token.kind_eq htoken
  cases kind with
  | int | float | string =>
    cases hliteral
    simp only [hkind]
    exact .advance (by simp) (by simp) fun _ _ => .pure _ _
  | bool flag =>
    cases hliteral
    simp only [hkind]
    refine .next rfl (by simp) fun following hfollowing =>
      .advance (by simp) (by simp) fun _ _ => ?_
    rw [if_neg]
    · exact .pure _ _
    · rw [Token.kind_eq hfollowing]
      simp [hword.notParen]
  | _ => cases hliteral

/-- A literal with something behind it that does not go on with it is read without looking
at any name. -/
theorem readOperation_literal {token : Token} {later : List Token} {fault? : Option ScanFault}
    {value : Value} (hliteral : token.kind.literal? = some value)
    (hlater : ∀ next ∈ later.head?, next.kind ≠ .operator ∧ next.word.EndsOperand)
    (names others : Names) :
    readOperation (budget + 3) names 0 ⟨token :: later, fault?⟩ =
      readOperation (budget + 3) others 0 ⟨token :: later, fault?⟩ := by
  cases later with
  | nil =>
    have hlone : ∀ names, readOperation (budget + 3) names 0 ⟨[token], fault?⟩ =
        stopped ⟨[token], fault?⟩ := by
      intro names
      obtain ⟨kind, text, column⟩ := token
      cases kind with
      | int | float | string | bool => cases fault? <;> rfl
      | _ => cases hliteral
    rw [hlone, hlone]
  | cons next more =>
    obtain ⟨hoperator, hends⟩ := hlater next rfl
    have hread : ∀ names, Reads (readOperation (budget + 3) names 0) [token.word]
        (next.word :: more.map Token.word) (.literal value) := fun names =>
      .andThen (reads_literal hliteral hends _) (readOperations_stops (Nat.succ_pos _) hoperator)
    have hgiven := fun names => hread names [token] (next :: more) fault? rfl rfl
    exact (hgiven names).trans (hgiven others).symm

theorem readName_of_lookup? {token : Token} {value : Value}
    (hparameter : token.text ∉ names.parameters)
    (hvalue : names.environment.lookup? token.text = some value) :
    readName names token = pure value.asNode := by
  rw [readName, if_neg (by simpa using hparameter), hvalue]
  cases value <;> rfl

/-- The name of a definition alone is what it is defined as. -/
theorem reads_definition {value : Value} (hparameter : name ∉ names.parameters)
    (hvalue : names.environment.lookup? name = some value) (hword : word.EndsOperand)
    (tail : List Word) :
    Reads (readOperand (budget + 3) names) [⟨.identifier, name⟩] (word :: tail) value.asNode := by
  rw [readOperand]
  refine .current rfl fun token htoken => ?_
  have hkind : token.kind = .identifier := Token.kind_eq htoken
  rw [if_neg (by simp [hkind])]
  refine .bind (?_ : Reads _ [⟨.identifier, name⟩] _ value.asNode)
    (readIndexes_stops (Nat.succ_pos _) hword.notBracket)
  rw [readPrimary]
  refine .current rfl fun token htoken => ?_
  have hkind : token.kind = .identifier := Token.kind_eq htoken
  simp only [hkind]
  rw [readIdentifier]
  refine .next rfl (by simp) fun following hfollowing =>
    .advance (by simp) (by simp) fun other hother => ?_
  have hfollows : following.word.EndsOperand := hfollowing ▸ hword
  have htext : other.text = name := Token.text_eq hother
  obtain ⟨harrow, hbracket, hparen⟩ := hfollows.no_more
  rw [harrow, hbracket, hparen, readName_of_lookup? (htext ▸ hparameter) (htext ▸ hvalue)]
  exact .pure _ _

end

/-! ## Texts of procedure calls -/

/-- Texts with an arrow in front of each. -/
def arrowChars (texts : List String) : List Char :=
  texts.flatMap fun text => ' ' :: '-' :: '>' :: ' ' :: text.toList

/-- A name with texts behind it and an arrow in front of each. -/
def chainText (name : String) (texts : List String) : String :=
  Text.joined " -> " (name :: texts)

theorem toList_chainText (name : String) (texts : List String) :
    (chainText name texts).toList = name.toList ++ arrowChars texts := by
  induction texts generalizing name with
  | nil => exact (List.append_nil _).symm
  | cons text texts ih =>
    have hjoined : chainText name (text :: texts) =
        name ++ " -> " ++ chainText text texts := rfl
    rw [hjoined, String.toList_append, String.toList_append, ih]
    simp [arrowChars]

/-- A text that can be read behind an arrow: as some procedure calls with arrows between them. -/
structure PipeText (names : Names) where
  text : String
  words : List Word
  steps : List PipeStep
  spells : ∀ rest, ∃ last, Scan.Spells (some .operator) (' ' :: (text.toList ++ ' ' :: rest)) words
    last (' ' :: rest)
  spells_last : ∃ last, Scan.Spells (some .operator) (' ' :: text.toList) words last []
  reads : ReadsSteps names (16 * (words.length + 1) + 47) (.arrow :: words) steps

namespace PipeText

variable {names : Names}

def chars (pipes : List (PipeText names)) : List Char :=
  arrowChars (pipes.map text)

def allWords (pipes : List (PipeText names)) : List Word :=
  pipes.flatMap fun pipe => .arrow :: pipe.words

theorem spells_chars (pipes : List (PipeText names)) (previous : Option TokenKind) :
    ∃ last, Scan.Spells previous (chars pipes) (allWords pipes) last [] := by
  induction pipes generalizing previous with
  | nil => exact ⟨previous, .done previous []⟩
  | cons pipe pipes ih =>
    have hcall : ∃ last, Scan.Spells (some .operator) (' ' :: (pipe.text.toList ++ chars pipes))
        (pipe.words ++ allWords pipes) last [] := by
      cases pipes with
      | nil => simpa [chars, arrowChars, allWords] using pipe.spells_last
      | cons next pipes =>
        obtain ⟨middle, hpipe⟩ :=
          pipe.spells ('-' :: '>' :: ' ' :: next.text.toList ++ chars pipes)
        obtain ⟨last, hlater⟩ := ih middle
        exact ⟨last, hpipe.trans hlater⟩
    obtain ⟨last, hcall⟩ := hcall
    have harrow : ['-', '>'] ∈ Scan.pairOperators := by decide
    have hpair : Scan.Spells previous ('-' :: '>' :: ' ' :: (pipe.text.toList ++ chars pipes))
        (.arrow :: (pipe.words ++ allWords pipes)) last [] := .pairOperator harrow hcall
    refine ⟨last, ?_⟩
    simpa [chars, arrowChars, allWords] using Scan.Spells.blank (by decide) hpair

/-- Behind a group, all arrows are read one after the other. -/
theorem reads_all (pipes : List (PipeText names)) {budget : Nat}
    (hbudget : 16 * (allWords pipes).length + 47 ≤ budget) {left : Node}
    (hleft : left.producesGroup = true) {word : Word} (hword : word.closes = true)
    (tail : List Word) :
    Reads (readOperations budget names 0 left) (allWords pipes) (word :: tail)
      (left.piped (pipes.flatMap PipeText.steps)) := by
  induction pipes generalizing budget left with
  | nil => exact readOperations_stops (by omega) (Word.not_operator_of_closes hword)
  | cons pipe pipes ih =>
    have hwords : allWords (pipe :: pipes) = (.arrow :: pipe.words) ++ allWords pipes := by
      simp [allWords]
    have hsteps : left.piped ((pipe :: pipes).flatMap PipeText.steps) =
        (left.piped pipe.steps).piped (pipes.flatMap PipeText.steps) := by
      rw [List.flatMap_cons, Node.piped_append]
    rw [hwords] at hbudget ⊢
    rw [hsteps]
    simp only [List.length_append, List.length_cons] at hbudget
    obtain ⟨first, others, hfirst, hends⟩ : ∃ first others,
        allWords pipes ++ word :: tail = first :: others ∧
          (first.closes = true ∨ first = .arrow) := by
      cases pipes with
      | nil => exact ⟨word, tail, rfl, .inl hword⟩
      | cons next pipes => exact ⟨.arrow, _, rfl, .inr rfl⟩
    refine pipe.reads budget (by omega) left hleft hfirst hends fun remaining hremaining => ?_
    rw [List.length_cons] at hremaining
    exact ih (by omega) (Node.producesGroup_piped hleft _)

/-- The name of a group with arrows behind it is read as the group with their calls. -/
theorem ofText_chainText {name : String} {group : Group} (hname : IsWord name)
    (hkind : Scan.wordKind name = .identifier) (hparameter : name ∉ names.parameters)
    (hgroup : names.environment.lookup? name = some (.group group))
    (pipes : List (PipeText names)) :
    Node.ofText names (chainText name (pipes.map PipeText.text)) =
      .ok ((Node.group group).piped (pipes.flatMap PipeText.steps)) := by
  obtain ⟨last, hchars⟩ := spells_chars pipes (some (Scan.wordKind name))
  have hend : ∀ char ∈ (chars pipes).head?, Text.isWord char = false := by
    cases pipes with
    | nil => exact nofun
    | cons pipe pipes =>
      rintro char ⟨⟩
      decide
  have hspells : Scan.Spells none (chainText name (pipes.map PipeText.text)).toList
      (.named name :: allWords pipes) last [] := by
    rw [toList_chainText]
    exact .name hname hend hchars
  obtain ⟨tokens, column, hwords, hscan⟩ := Scan.ofText_of_spells hspells
  refine Node.ofText_of_reads hscan ?_
  have hlength : tokens.length = (allWords pipes).length + 1 := by
    rw [← List.length_map, hwords, List.length_cons]
  have hfirst : Word.named name = ⟨.identifier, name⟩ := by rw [Word.named, hkind]
  obtain ⟨first, others, hrest, hends⟩ : ∃ first others,
      allWords pipes ++ [⟨.finish, ""⟩] = first :: others ∧ first.EndsOperand := by
    cases pipes with
    | nil => exact ⟨_, _, rfl, Word.endsOperand_of_closes rfl⟩
    | cons pipe pipes => exact ⟨_, _, rfl, Word.endsOperand_arrow⟩
  have hoperand : Reads (readOperand (16 * (tokens.length + 1) + 12 + 3) names)
      [⟨.identifier, name⟩] (allWords pipes ++ [⟨.finish, ""⟩]) (.group group) := by
    rw [hrest]
    exact reads_definition hparameter hgroup hends others
  rw [hwords, hfirst, readingBudget, readOperation]
  exact .bind hoperand (reads_all pipes (by omega) rfl rfl [])

end PipeText

/-- Where an arrow stands, nothing else is scanned. -/
theorem Scan.Lexeme.eq_of_arrow {previous : Option TokenKind} {kind : TokenKind} {text : String}
    {rest behind : List Char} (hlexeme : Scan.Lexeme previous kind text.toList rest)
    (hchars : text.toList ++ rest = '-' :: '>' :: behind) :
    (⟨kind, text⟩ : Word) = .arrow ∧ rest = behind := by
  have harrow : Scan.Lexeme previous .operator ['-', '>'] behind := .pairOperator (by decide)
  have hstep := hlexeme.step_eq 0
  rw [hchars, String.ofList_toList] at hstep
  obtain ⟨hword, hrest⟩ := Scan.Step.mk.inj (Except.ok.inj (hstep.symm.trans (harrow.step_eq 0)))
  obtain ⟨rfl, rfl, -⟩ := Token.mk.inj hword
  exact ⟨rfl, hrest⟩

/-- What is scanned from a name and an arrow behind it: the name is one word, unless it starts
with a number. -/
theorem Scan.exists_of_cut_name {name : String} {chars : List Char} {tokens : List Token}
    (hname : name ≠ "") (hword : ∀ char ∈ name.toList, Text.isWord char = true)
    (hcut : Scan.Cut none 0 (name.toList ++ ' ' :: '-' :: '>' :: chars) tokens) :
    ∃ first later, tokens = first :: later ∧ (first.kind.IsNumber ∨
      IsWord name ∧ first.word = .named name ∧ ∃ arrow behind column, later = arrow :: behind ∧
        arrow.word = .arrow ∧ Scan.Cut (some .operator) column chars behind) := by
  have hchars : name.toList ≠ [] := by simpa [String.toList_eq_nil_iff] using hname
  have hend : ∀ char ∈ (' ' :: '-' :: '>' :: chars).head?, Text.isWord char = false := by
    rintro char ⟨⟩
    decide
  obtain ⟨head, others, hhead⟩ := List.exists_cons_of_ne_nil hchars
  have hblank : Text.isBlank head = false :=
    Text.isBlank_eq_false_of_isWord (hword head (hhead ▸ List.mem_cons_self))
  have hfront : name.toList ++ ' ' :: '-' :: '>' :: chars =
      head :: (others ++ ' ' :: '-' :: '>' :: chars) := by rw [hhead, List.cons_append]
  obtain ⟨first, rest, later, rfl, hstands, hlater⟩ := (hfront ▸ hcut).exists_first hblank
  refine ⟨first, later, rfl, ?_⟩
  obtain hnumber | ⟨htext, rfl, hkind, hletter⟩ := hstands.lexeme.number_or_word hchars hword hend
    (hstands.split.symm.trans hfront.symm)
  · exact .inl hnumber
  have hnamed : first.word = .named name := by
    rw [String.ofList_toList] at hkind
    rw [Token.word, hkind, String.toList_inj.mp htext, Word.named]
  obtain ⟨arrow, rest, behind, rfl, harrow, hbehind⟩ :=
    (hlater.after_blank (by decide)).exists_first (by decide)
  obtain ⟨hword', rfl⟩ := harrow.lexeme.eq_of_arrow harrow.split.symm
  refine .inr ⟨⟨hletter, List.all_eq_true.mpr hword⟩, hnamed, arrow, behind, arrow.stop, rfl, hword',
    ?_⟩
  have hkind' : arrow.kind = .operator := congrArg Word.kind hword'
  rw [hkind'] at hbehind
  exact hbehind

section

variable {names : Names} {name call : String} {group : Group} {left : Node}
  {procedure : Procedure} {arguments : List Node} {pairwise : Bool}

/-- What is read from the name of a group and an arrow behind it. -/
theorem PipeText.exists_of_ofText (hname : name ≠ "")
    (hword : ∀ char ∈ name.toList, Text.isWord char = true) (hparameter : name ∉ names.parameters)
    (hgroup : names.environment.lookup? name = some (.group group))
    (hread : Node.ofText names (chainText name [call]) =
      .ok (.pipe left procedure arguments pairwise)) :
    IsWord name ∧ Scan.wordKind name = .identifier ∧ ∃ pipe : PipeText names, pipe.text = call ∧
      Node.pipe left procedure arguments pairwise = (Node.group group).piped pipe.steps := by
  obtain ⟨tokens, column, hscan, -, hrun⟩ := Node.exists_of_ofText hread
  have hcomplete : Scan.complete (chainText name [call]) =
      .ok (tokens ++ [⟨.finish, "", column⟩]) := by
    rw [Scan.complete, hscan]
  have hchars : (chainText name [call]).toList =
      name.toList ++ ' ' :: '-' :: '>' :: ' ' :: call.toList := by
    simp [toList_chainText, arrowChars]
  have hcut := Scan.cut_of_complete hcomplete
  rw [hchars] at hcut
  obtain ⟨first, later, htokens, hfirst⟩ := Scan.exists_of_cut_name hname hword hcut
  rw [htokens, readingBudget, readOperation] at hrun
  obtain ⟨operand, mid, hoperand, hoperations⟩ := exists_of_bind hrun
  have hsteps := exists_steps hoperations ⟨_, rfl, rfl⟩
  obtain ⟨_, _, _, hbinary⟩ | ⟨steps, taken, hnode, hproduces, rfl, hreads⟩ := hsteps
  · cases hbinary
  -- The name has been read as a group, since an arrow has been read behind it.
  have hproduced : operand.producesGroup = true := by
    cases steps with
    | nil =>
      rw [Node.piped, List.foldl_nil] at hnode
      rw [← hnode]
      rfl
    | cons step steps => exact hproduces (List.cons_ne_nil _ _)
  obtain hnumber | ⟨hname, hnamed, arrow, behind, place, rfl, harrow, hbehind⟩ := hfirst
  · rw [producesGroup_of_number hnumber hoperand] at hproduced
    cases hproduced
  have hword' : arrow.word.EndsOperand := harrow ▸ Word.endsOperand_arrow
  have htext : Word.named name = ⟨Scan.wordKind name, name⟩ := rfl
  obtain hkind | ⟨flag, hkind⟩ := Node.wordKind_cases name
  · have hname' : Reads (readOperand (16 * (tokens.length + 1) + 12 + 3) names)
        [⟨.identifier, name⟩] (arrow.word :: behind.map Token.word) (.group group) :=
      reads_definition hparameter hgroup hword' _
    have hgiven := hname' [first] (arrow :: behind) none (by simp [hnamed, htext, hkind]) rfl
    obtain ⟨hsame, hcursor⟩ := Prod.mk.inj (Except.ok.inj (hgiven.symm.trans hoperand))
    have hsplit : arrow :: behind = taken ++ [⟨.finish, "", column⟩] :=
      congrArg Cursor.tokens hcursor
    obtain ⟨inner, rfl, rfl⟩ : ∃ inner, taken = arrow :: inner ∧
        behind = inner ++ [⟨.finish, "", column⟩] := by
      cases taken with
      | nil =>
        obtain ⟨rfl, -⟩ := List.cons.inj hsplit
        cases harrow
      | cons token inner =>
        obtain ⟨rfl, hbehind⟩ := List.cons.inj hsplit
        exact ⟨inner, rfl, hbehind⟩
    have hlength : 16 * (tokens.length + 1) + 15 = 16 * ((inner.map Token.word).length + 1) + 47 := by
      have hboth := congrArg List.length htokens
      simp only [List.length_append, List.length_cons, List.length_nil, List.length_map] at hboth ⊢
      omega
    rw [List.map_cons, harrow] at hreads
    have hwords : ∀ words : List Word, (inner ++ [(⟨.finish, "", column⟩ : Token)]).map Token.word =
        words ++ [⟨.finish, ""⟩] → words = inner.map Token.word := by
      intro words hsame
      rw [List.map_append] at hsame
      exact (List.append_inj' hsame rfl).1.symm
    refine ⟨hname, hkind, ⟨call, inner.map Token.word, steps, fun rest => ?_, ?_, hlength ▸ hreads⟩, rfl,
      hsame ▸ hnode⟩
    · obtain ⟨words, last, hsame, hspells⟩ := hbehind.spells_in_place rfl rest
      exact ⟨last, hwords words hsame ▸ hspells⟩
    · obtain ⟨words, last, hsame, hspells⟩ := hbehind.spells_last rfl
      exact ⟨last, hwords words hsame ▸ hspells⟩
  · have hflag : Reads (readOperand (16 * (tokens.length + 1) + 13 + 2) names)
        [⟨.bool flag, name⟩] (arrow.word :: behind.map Token.word) (.literal (.boolean flag)) :=
      reads_literal rfl hword' _
    have hgiven := hflag [first] (arrow :: behind) none (by simp [hnamed, htext, hkind]) rfl
    obtain ⟨hsame, -⟩ := Prod.mk.inj (Except.ok.inj (hgiven.symm.trans hoperand))
    rw [← hsame] at hproduced
    cases hproduced

end

end Patchwork
