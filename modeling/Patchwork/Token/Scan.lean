import Patchwork.Number.Numeral
import Patchwork.Text.Letter
import Patchwork.Token

/-!
# Scanning

A line is cut into tokens from left to right.  Blanks separate tokens, the
longest token wins, and a minus sign belongs to a number only where an operand
may start.  Scanning stops at the first character that neither starts nor
completes a token; the tokens before it stand.
-/

namespace Patchwork

/-- Why scanning stopped. -/
inductive ScanFault
  /-- A quote at this column is never closed. -/
  | openString (column : Nat)
  /-- No token starts with the character at this column. -/
  | unexpected (char : Char) (column : Nat)
  /-- A run of digits that is no integer. -/
  | notInteger (text : String)
  /-- A run of digits around a point that is no decimal number. -/
  | notDecimal (text : String)
  deriving DecidableEq

namespace ScanFault

/-- The column scanning stopped at, when it is reported. -/
def column? : ScanFault → Option Nat
  | openString column => some column
  | unexpected _ column => some column
  | notInteger _ => none
  | notDecimal _ => none

/-- The text of an error about a text that is no integer; a long text is cut
off. -/
def notIntegerMessage (text : String) : String :=
  "invalid literal for int() with base 10: " ++
    String.ofList ((Text.quoted text).toList.take 200)

/-- The text of an error about a text that is no decimal number. -/
def notDecimalMessage (text : String) : String :=
  "could not convert string to float: " ++ Text.quoted text

/-- The text of the error. -/
def message : ScanFault → String
  | openString column =>
    "Lexer error at column " ++ integerText column ++ ": Unterminated string literal"
  | unexpected char column =>
    "Lexer error at column " ++ integerText column ++ ": Unexpected character " ++
      Text.quoted (String.singleton char)
  | notInteger text => notIntegerMessage text
  | notDecimal text => notDecimalMessage text

end ScanFault

/-- The tokens up to the first fault. -/
structure Scan where
  tokens : List Token
  fault? : Option ScanFault

namespace Scan

/-- The operators of two characters. -/
def pairOperators : List (List Char) :=
  [['=', '='], ['!', '='], ['>', '='], ['<', '='], ['&', '&'], ['|', '|'],
    ['-', '>'], ['=', '>']]

/-- The operators of one character. -/
def singleOperators : List Char :=
  ['+', '-', '*', '/', '%', '<', '>', '!']

/-- The kind of a punctuation character. -/
def punctuation? : Char → Option TokenKind
  | '(' => some .leftParen
  | ')' => some .rightParen
  | '[' => some .leftBracket
  | ']' => some .rightBracket
  | ',' => some .comma
  | _ => none

/-- A token and the characters after it. -/
structure Step where
  token : Token
  rest : List Char

/-- Whether the characters start with a digit. -/
def startsWithDigit : List Char → Bool
  | [] => false
  | char :: _ => Text.isDigit char

/-- The characters of a number without sign, whether it has a point, and the
characters after it. -/
def numberBody (chars : List Char) : List Char × Bool × List Char :=
  let whole := chars.takeWhile Text.isDigit
  match chars.dropWhile Text.isDigit with
  | '.' :: rest =>
    if startsWithDigit rest then
      (whole ++ '.' :: rest.takeWhile Text.isDigit, true, rest.dropWhile Text.isDigit)
    else (whole, false, '.' :: rest)
  | rest => (whole, false, rest)

/-- The number token with a sign and a body. -/
def number (column : Nat) (sign chars : List Char) : Except ScanFault Step :=
  let (body, hasPoint, rest) := numberBody chars
  let text := String.ofList (sign ++ body)
  if hasPoint then
    match Numeral.float? text with
    | some value => .ok ⟨⟨.float value, text, column⟩, rest⟩
    | none => .error (.notDecimal text)
  else
    match Numeral.integer? text with
    | some value => .ok ⟨⟨.int value, text, column⟩, rest⟩
    | none => .error (.notInteger text)

/-- The kind of a word: the two truth values are literals. -/
def wordKind (word : String) : TokenKind :=
  if word == "true" then .bool true
  else if word == "false" then .bool false
  else .identifier

/-- The token of the word at the front. -/
def word (column : Nat) (chars : List Char) : Step :=
  let text := String.ofList (chars.takeWhile Text.isWord)
  ⟨⟨wordKind text, text, column⟩, chars.dropWhile Text.isWord⟩

/-- The token of the string whose opening quote has been read. -/
def string (column : Nat) (chars : List Char) : Except ScanFault Step :=
  match Text.breakOn? ['"'] chars with
  | some (content, rest) =>
    .ok ⟨⟨.string (String.ofList content), String.ofList ('"' :: content ++ ['"']), column⟩,
      rest⟩
  | none => .error (.openString column)

/-- The operator or punctuation at the front. -/
def symbol (column : Nat) (char : Char) (rest : List Char) : Except ScanFault Step :=
  if pairOperators.contains (char :: rest.take 1) then
    .ok ⟨⟨.operator, String.ofList (char :: rest.take 1), column⟩, rest.drop 1⟩
  else if singleOperators.contains char then
    .ok ⟨⟨.operator, String.singleton char, column⟩, rest⟩
  else
    match punctuation? char with
    | some kind => .ok ⟨⟨kind, String.singleton char, column⟩, rest⟩
    | none => .error (.unexpected char column)

/-- Whether an operand may start after the token before, if there is one. -/
def operandMayStart (previous : Option TokenKind) : Bool :=
  previous.all TokenKind.precedesOperand

/-- The token that starts with the first character, which is no blank. -/
def step (previous : Option TokenKind) (column : Nat) : List Char → Except ScanFault Step
  | [] => .ok ⟨⟨.finish, "", column⟩, []⟩
  | char :: rest =>
    if char == '@' then .ok ⟨⟨.atSign, "@", column⟩, rest⟩
    else if Text.isDigit char then number column [] (char :: rest)
    else if char == '-' && startsWithDigit rest && operandMayStart previous then
      number column ['-'] rest
    else if Text.isLetter char then .ok (word column (char :: rest))
    else if char == '"' then string column rest
    else symbol column char rest

/-- The tokens of the characters from a column on; `budget` bounds their
number. -/
def scanFrom : (budget : Nat) → Option TokenKind → Nat → List Char → Scan
  | 0, _, _, _ => ⟨[], none⟩
  | budget + 1, previous, column, chars =>
    let blanks := chars.takeWhile Text.isBlank
    let start := column + blanks.length
    match step previous start (chars.dropWhile Text.isBlank) with
    | .error fault => ⟨[], some fault⟩
    | .ok ⟨token, rest⟩ =>
      if token.isFinish then ⟨[token], none⟩
      else
        let following :=
          scanFrom budget (some token.kind) (start + token.text.length) rest
        ⟨token :: following.tokens, following.fault?⟩

/-- The tokens of a text, the last of which is the end unless scanning
stopped. -/
def ofText (text : String) : Scan :=
  scanFrom (text.length + 1) none 0 text.toList

/-- All tokens of a text. -/
def complete (text : String) : Except ScanFault (List Token) :=
  match ofText text with
  | ⟨tokens, none⟩ => .ok tokens
  | ⟨_, some fault⟩ => .error fault

end Scan

end Patchwork
