import Patchwork.Expression.Reading
import Patchwork.Proofs.Text.Numerals
import Patchwork.Proofs.Token.Cutting
import Patchwork.Token.Scan

/-!
# Words in a text

A word is a token without its place in the line.  An expression is written as a
sequence of words, with or without blanks between them.  Some texts do not say what
they were written from: a lambda in front of an operator takes the operator into its
body, a minus sign in front of a digit belongs to the number, and a record group has
no text of its own.  The expressions that contain none of these are writable.

Scanning the text of a writable expression gives the words it was written with, and
stops where the text does.  The relation `Spells` says this for a part of a line:
which words are read between two places in it.  What a place looks like from the left
is only the kind of the token before it, since a minus sign may start a number.
-/

namespace Patchwork

/-! ## Writable expressions -/

/-- A token without its place. -/
structure Word where
  kind : TokenKind
  text : String

namespace Word

/-- The word for a name, which may be a truth value. -/
def named (name : String) : Word :=
  ⟨Scan.wordKind name, name⟩

/-- The word for the string with a content. -/
def quoted (content : String) : Word :=
  ⟨.string content, "\"" ++ content ++ "\""⟩

def operator (symbol : String) : Word :=
  ⟨.operator, symbol⟩

def leftParen : Word :=
  ⟨.leftParen, "("⟩

def rightParen : Word :=
  ⟨.rightParen, ")"⟩

def leftBracket : Word :=
  ⟨.leftBracket, "["⟩

def rightBracket : Word :=
  ⟨.rightBracket, "]"⟩

def comma : Word :=
  ⟨.comma, ","⟩

end Word

/-- The word of a token. -/
def Token.word (token : Token) : Word :=
  ⟨token.kind, token.text⟩

/-- A text that is scanned as one word: a letter with word characters after it. -/
structure IsWord (text : String) : Prop where
  starts : text.toList.head?.any Text.isLetter = true
  all : text.toList.all Text.isWord = true

namespace IsWord

variable {text : String}

theorem exists_letter (htext : IsWord text) :
    ∃ first others, text.toList = first :: others ∧ Text.isLetter first = true := by
  obtain ⟨first, hfirst, hletter⟩ := (Option.any_eq_true _ _).mp htext.starts
  obtain ⟨others, hchars⟩ := List.head?_eq_some_iff.mp hfirst
  exact ⟨first, others, hchars, hletter⟩

theorem isWord_of_mem (htext : IsWord text) {char : Char} (hchar : char ∈ text.toList) :
    Text.isWord char = true :=
  List.all_eq_true.mp htext.all char hchar

theorem function_name (function : Function) : IsWord function.name := by
  cases function <;> exact ⟨by decide, by decide⟩

theorem predicate_name (predicate : Predicate) : IsWord predicate.name := by
  cases predicate <;> exact ⟨by decide, by decide⟩

end IsWord

/-- A name that can be introduced by a lambda or name a table, which the truth values
are not. -/
structure IsName (name : String) : Prop extends IsWord name where
  kind : Scan.wordKind name = .identifier

/-- The names that are known in the body of a lambda. -/
def Names.within (names : Names) (parameter : String) : Names :=
  { names with parameters := names.parameters ++ [parameter] }

@[simp]
theorem Names.labels_within (names : Names) (parameter : String) :
    (names.within parameter).labels = names.labels := rfl

namespace Node

def isLambda : Node → Bool
  | .lambda .. => true
  | _ => false

/-- Whether an index may directly follow an expression, apart from the name of a
table. -/
def takesIndex : Node → Bool
  | .literal _ | .array _ | .call .. | .test .. | .binary .. | .index .. => true
  | _ => false

/-- The word of a literal. -/
def literalWords : Value → List Word
  | .integer number => [⟨.int number, integerText number⟩]
  | .boolean flag => [.named (if flag then "true" else "false")]
  | .string content => [.quoted content]
  | _ => []

mutual

/-- The words a writable expression is written with. -/
def words : Node → List Word
  | .literal value => literalWords value
  | .parameter name => [.named name]
  | .unary operator operand => .operator operator.symbol :: words operand
  | .binary operator left right =>
    .leftParen :: (words left ++ .operator operator.symbol :: (words right ++ [.rightParen]))
  | .call function arguments =>
    .named function.name :: .leftParen :: (listWords arguments ++ [.rightParen])
  | .test predicate arguments =>
    .named predicate.name :: .leftParen :: (listWords arguments ++ [.rightParen])
  | .array elements => .leftBracket :: (listWords elements ++ [.rightBracket])
  | .tableName name => [.named name]
  | .index target position =>
    words target ++ .leftBracket :: (words position ++ [.rightBracket])
  | .lambda name body => .named name :: .operator "=>" :: words body
  | _ => []

/-- The words of expressions with commas between them. -/
def listWords : List Node → List Word
  | [] => []
  | first :: rest => words first ++ moreWords rest

/-- The words of further expressions, each after a comma. -/
def moreWords : List Node → List Word
  | [] => []
  | first :: rest => .comma :: (words first ++ moreWords rest)

end

/-- An expression that is read back from its text where the names have their
meaning.  Lambdas stand only where nothing follows that they could take in, and no
minus sign stands in front of a digit. -/
inductive Writable : Names → Node → Prop
  | integer {names : Names} (number : Int) : Writable names (.literal (.integer number))
  | boolean {names : Names} (flag : Bool) : Writable names (.literal (.boolean flag))
  | string {names : Names} {content : String} (hcontent : '"' ∉ content.toList) :
    Writable names (.literal (.string content))
  | parameter {names : Names} {name : String} (hname : IsName name)
    (hknown : name ∈ names.parameters) : Writable names (.parameter name)
  | array {names : Names} {elements : List Node}
    (helements : ∀ element ∈ elements, Writable names element) :
    Writable names (.array elements)
  | call {names : Names} {function : Function} {arguments : List Node}
    (hcount : function.arity.Accepts arguments.length)
    (harguments : ∀ argument ∈ arguments, Writable names argument) :
    Writable names (.call function arguments)
  | test {names : Names} {predicate : Predicate} {arguments : List Node}
    (hcount : predicate.arity.Accepts arguments.length)
    (harguments : ∀ argument ∈ arguments, Writable names argument) :
    Writable names (.test predicate arguments)
  | lambda {names : Names} {name : String} {body : Node} (hname : IsName name)
    (hbody : Writable (names.within name) body) :
    Writable names (.lambda name body)
  | not {names : Names} {operand : Node} (hoperand : Writable names operand)
    (hplain : operand.isLambda = false) : Writable names (.unary .not operand)
  | negative {names : Names} {operand : Node} (hoperand : Writable names operand)
    (hplain : operand.isLambda = false)
    (hdigit : Scan.startsWithDigit (operand.text names.labels).toList = false) :
    Writable names (.unary .negative operand)
  | binary {names : Names} {operator : BinaryOperator} {left right : Node}
    (hleft : Writable names left) (hleftPlain : left.isLambda = false)
    (hright : Writable names right) (hrightPlain : right.isLambda = false) :
    Writable names (.binary operator left right)
  | entry {names : Names} {table : String} {position : Node} (htable : IsName table)
    (hposition : Writable names position) :
    Writable names (.index (.tableName table) position)
  | index {names : Names} {target position : Node} (htarget : Writable names target)
    (hplace : target.takesIndex = true) (hposition : Writable names position) :
    Writable names (.index target position)

end Node

/-! ## Scanning -/

namespace Scan

/-- From a place in a line, where `previous` is the kind of the token before, scanning
reads some words and gets to another place. -/
inductive Spells :
    Option TokenKind → List Char → List Word → Option TokenKind → List Char → Prop
  | done (previous : Option TokenKind) (chars : List Char) :
    Spells previous chars [] previous chars
  | blank {previous last : Option TokenKind} {char : Char} {chars rest : List Char}
    {words : List Word} (hchar : Text.isBlank char = true)
    (hrest : Spells previous chars words last rest) :
    Spells previous (char :: chars) words last rest
  | word {previous last : Option TokenKind} {kind : TokenKind} {text : String} {first : Char}
    {others chars rest : List Char} {words : List Word} (htext : text.toList = first :: others)
    (hstep : ∀ column, step previous column (first :: (others ++ chars)) =
      .ok ⟨⟨kind, text, column⟩, chars⟩)
    (hblank : Text.isBlank first = false) (hkind : kind ≠ .finish)
    (hrest : Spells (some kind) chars words last rest) :
    Spells previous (first :: (others ++ chars)) (⟨kind, text⟩ :: words) last rest

namespace Spells

variable {previous middle last : Option TokenKind} {chars between rest : List Char}
  {words more : List Word}

theorem trans (hfirst : Spells previous chars words middle between)
    (hsecond : Spells middle between more last rest) :
    Spells previous chars (words ++ more) last rest := by
  induction hfirst with
  | done => exact hsecond
  | blank hchar _ ih => exact .blank hchar (ih hsecond)
  | word htext hstep hblank hkind _ ih => exact .word htext hstep hblank hkind (ih hsecond)

theorem blanks {blanks : List Char} (hblanks : ∀ char ∈ blanks, Text.isBlank char = true)
    (hrest : Spells previous chars words last rest) :
    Spells previous (blanks ++ chars) words last rest := by
  induction blanks with
  | nil => exact hrest
  | cons char blanks ih =>
    exact .blank (hblanks char List.mem_cons_self)
      (ih fun other hother => hblanks other (List.mem_cons_of_mem _ hother))

theorem length_words_le (hspells : Spells previous chars words last rest) :
    words.length + rest.length ≤ chars.length := by
  induction hspells with
  | done => simp
  | blank _ _ ih => exact Nat.le_succ_of_le ih
  | word _ _ _ _ _ ih =>
    simp only [List.length_cons, List.length_append]
    omega

end Spells

/-- Scanning a part of a line gives tokens with the words the part is spelled with and
goes on after it. -/
theorem scanFrom_of_spells {previous last : Option TokenKind} {chars rest : List Char}
    {words : List Word} (hspells : Spells previous chars words last rest) {budget : Nat}
    (hbudget : words.length ≤ budget) (column : Nat) :
    ∃ tokens after, tokens.map Token.word = words ∧
      scanFrom budget previous column chars =
        ⟨tokens ++ (scanFrom (budget - words.length) last after rest).tokens,
          (scanFrom (budget - words.length) last after rest).fault?⟩ := by
  induction hspells generalizing budget column with
  | done => exact ⟨[], column, rfl, rfl⟩
  | blank hchar _ ih =>
    obtain ⟨tokens, after, hwords, hscan⟩ := ih hbudget (column + 1)
    exact ⟨tokens, after, hwords, (scanFrom_blank budget _ column hchar _).trans hscan⟩
  | @word previous last kind text first others chars rest words _ hstep hblank hkind _ ih =>
    obtain _ | budget := budget
    · exact absurd hbudget (by simp)
    · have hbudget' : words.length ≤ budget := Nat.le_of_succ_le_succ hbudget
      obtain ⟨tokens, after, hwords, hscan⟩ := ih hbudget'
        (column + text.length)
      refine ⟨⟨kind, text, column⟩ :: tokens, after, by rw [List.map_cons, hwords]; rfl, ?_⟩
      have hfinish : Token.isFinish ⟨kind, text, column⟩ = false := by
        simp [Token.isFinish, hkind]
      have hleft : budget + 1 - (words.length + 1) = budget - words.length := by omega
      rw [scanFrom_step budget hblank, hstep]
      simp only [hfinish, hscan, List.length_cons, hleft, Bool.false_eq_true, if_false,
        List.cons_append]

/-- A lexeme is spelled as one word. -/
theorem Spells.lexeme {previous last : Option TokenKind} {kind : TokenKind} {text : String}
    {chars rest after : List Char} {words : List Word} (htext : text.toList = chars)
    (hlexeme : Lexeme previous kind chars rest)
    (hrest : Spells (some kind) rest words last after) :
    Spells previous (chars ++ rest) (⟨kind, text⟩ :: words) last after := by
  obtain ⟨first, others, rfl⟩ := List.exists_cons_of_ne_nil hlexeme.chars_ne_nil
  have hstep : ∀ column, step previous column (first :: (others ++ rest)) =
      .ok ⟨⟨kind, text, column⟩, rest⟩ := by
    intro column
    rw [← List.cons_append, hlexeme.step_eq, ← htext, String.ofList_toList]
  have hblank := hlexeme.head_not_blank first rfl
  exact .word htext hstep hblank hlexeme.kind_ne_finish hrest

/-- A text that is spelled by words is scanned as tokens with these words and the end. -/
theorem ofText_of_spells {last : Option TokenKind} {text : String} {words : List Word}
    (hspells : Spells none text.toList words last []) :
    ∃ tokens column, tokens.map Token.word = words ∧
      ofText text = ⟨tokens ++ [⟨.finish, "", column⟩], none⟩ := by
  have hbudget : words.length ≤ text.length := hspells.length_words_le
  obtain ⟨tokens, column, hwords, hscan⟩ :=
    scanFrom_of_spells hspells (Nat.le_succ_of_le hbudget) 0
  have hleft : text.length.succ - words.length = text.length - words.length + 1 := by omega
  refine ⟨tokens, column, hwords, ?_⟩
  rw [ofText, hscan, hleft]
  rfl

/-! ## Symbols -/

section

variable {previous last : Option TokenKind} {char : Char} {rest after : List Char}
  {words : List Word}

theorem Spells.punctuation {kind : TokenKind} (hkind : punctuation? char = some kind)
    (hrest : Spells (some kind) rest words last after) :
    Spells previous (char :: rest) (⟨kind, String.singleton char⟩ :: words) last after :=
  .lexeme (String.toList_singleton char) (.punctuation hkind) hrest

/-- What is spelled up to a closing bracket is spelled with it. -/
theorem Spells.closed {kind : TokenKind} {chars : List Char} (hkind : punctuation? char = some kind)
    (hchars : ∃ last, Spells previous chars words last (char :: rest)) :
    Spells previous chars (words ++ [⟨kind, String.singleton char⟩]) (some kind) rest := by
  obtain ⟨last, hchars⟩ := hchars
  exact hchars.trans (.punctuation hkind (.done _ _))

/-- An operator of two characters. -/
theorem Spells.pairOperator {second : Char} (hpair : [char, second] ∈ pairOperators)
    (hrest : Spells (some .operator) rest words last after) :
    Spells previous (char :: second :: rest) (.operator (String.ofList [char, second]) :: words)
      last after :=
  .lexeme String.toList_ofList (.pairOperator hpair) hrest

/-- An operator of one character, where it does not form a longer one with the next
character and does not belong to a number. -/
theorem Spells.singleOperator (hsingle : char ∈ singleOperators)
    (hpair : char :: rest.take 1 ∉ pairOperators)
    (hminus : char = '-' → startsWithDigit rest = false)
    (hrest : Spells (some .operator) rest words last after) :
    Spells previous (char :: rest) (.operator (String.singleton char) :: words) last after := by
  have hsigned : char = '-' → (startsWithDigit rest && operandMayStart previous) = false := by
    intro hhyphen
    rw [hminus hhyphen, Bool.false_and]
  exact .lexeme (String.toList_singleton char) (.singleOperator hsingle hpair hsigned) hrest

/-- An operator between two operands with a blank after it. -/
theorem Spells.binaryOperator (operator : BinaryOperator)
    (hrest : Spells (some .operator) rest words last after) :
    Spells previous (operator.symbol.toList ++ ' ' :: rest) (.operator operator.symbol :: words)
      last after := by
  have hblank : Spells (some .operator) (' ' :: rest) words last after :=
    .blank (by decide) hrest
  cases operator
  case or | and | equal | notEqual | atLeast | atMost =>
    exact .pairOperator (by decide) hblank
  case greater | less | plus | times | divided | modulo | minus =>
    refine .singleOperator (by decide) ?_ ?_ hblank
    · simp [pairOperators]
    · exact fun _ => (by decide : Text.isDigit ' ' = false)

/-- An operator before one operand with a blank after it. -/
theorem Spells.unaryOperator (operator : UnaryOperator)
    (hrest : Spells (some .operator) rest words last after) :
    Spells previous (operator.symbol.toList ++ ' ' :: rest) (.operator operator.symbol :: words)
      last after := by
  cases operator
  all_goals
    refine .singleOperator (by decide) ?_ ?_ (.blank (by decide) hrest)
    · simp [pairOperators]
    · exact fun _ => (by decide : Text.isDigit ' ' = false)

end

/-! ## Names and literals -/

section

variable {previous last : Option TokenKind} {rest after : List Char} {words : List Word}

theorem Spells.name {name : String} (hname : IsWord name)
    (hend : ∀ char ∈ rest.head?, Text.isWord char = false)
    (hrest : Spells (some (wordKind name)) rest words last after) :
    Spells previous (name.toList ++ rest) (.named name :: words) last after := by
  obtain ⟨first, others, hchars, hletter⟩ := hname.exists_letter
  have hothers : ∀ char ∈ others, Text.isWord char = true :=
    fun char hchar => hname.isWord_of_mem (hchars ▸ List.mem_cons_of_mem _ hchar)
  have hlexeme : Lexeme previous (wordKind name) name.toList rest := by
    rw [← String.ofList_toList (s := name), String.toList_ofList, hchars]
    exact .word hletter hothers hend
  exact .lexeme rfl hlexeme hrest

/-- A place where a number ends. -/
def EndsNumber (rest : List Char) : Prop :=
  ∀ char ∈ rest.head?, Text.isDigit char = false ∧ char ≠ '.'

theorem startsWithDigit_append {chars : List Char} (hchars : startsWithDigit chars = false)
    (hend : EndsNumber rest) : startsWithDigit (chars ++ rest) = false := by
  cases chars with
  | cons char chars => exact hchars
  | nil => exact startsWithDigit_eq_false.mpr fun char hchar => (hend char hchar).1

theorem numberBody_decimalDigits (number : Nat) (hend : EndsNumber rest) :
    NumberBody (decimalDigits number) false rest := by
  have hdigits : Digits (decimalDigits number) := ⟨decimalDigits_ne_nil number, fun digit hdigit =>
    Text.isDigit_of_isDecimal (Text.isDecimal_of_isDigit (isDigit_of_mem_decimalDigits hdigit))⟩
  refine .whole hdigits (startsWithDigit_eq_false.mpr fun char hchar => (hend char hchar).1) ?_
  rw [startsWithFraction]
  rintro others rfl
  exact (hend '.' rfl).2 rfl

/-- An integer is scanned as one word where an operand may start. -/
theorem Spells.integer (number : Int) (hprevious : operandMayStart previous = true)
    (hend : EndsNumber rest) (hrest : Spells (some (.int number)) rest words last after) :
    Spells previous ((integerText number).toList ++ rest)
      (⟨.int number, integerText number⟩ :: words) last after := by
  have hvalue := Numeral.integer?_integerText number
  rw [← String.ofList_toList (s := integerText number), toList_integerText] at hvalue
  have hsign : SignAfter previous (if number < 0 then ['-'] else []) := by
    split
    · exact Or.inr ⟨rfl, hprevious⟩
    · exact Or.inl rfl
  have hlexeme : Lexeme previous (.int number) (integerText number).toList rest := by
    rw [toList_integerText]
    exact .integer hsign (numberBody_decimalDigits number.natAbs hend) hvalue
  exact .lexeme rfl hlexeme hrest

theorem Spells.quoted {content : String} (hcontent : '"' ∉ content.toList)
    (hrest : Spells (some (.string content)) rest words last after) :
    Spells previous (("\"" ++ content ++ "\"").toList ++ rest) (.quoted content :: words)
      last after := by
  have hchars : ("\"" ++ content ++ "\"").toList = '"' :: (content.toList ++ ['"']) := by
    simp [String.toList_append]
  have hlexeme : Lexeme previous (.string content) ("\"" ++ content ++ "\"").toList rest := by
    rw [hchars, ← String.ofList_toList (s := content), String.toList_ofList]
    exact .string hcontent
  exact .lexeme rfl hlexeme hrest

end

end Scan

end Patchwork
