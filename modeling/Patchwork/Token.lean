import Patchwork.Plain

/-!
# Tokens

The words of a script line.  A token keeps the exact text it was read from and
the column of its first character, counted in code points from zero; literal
tokens also keep their value.
-/

namespace Patchwork

/-- What a token is, with the value of a literal. -/
inductive TokenKind
  | identifier
  | int (number : Int)
  | float (number : Binary64)
  | string (content : String)
  | bool (flag : Bool)
  | operator
  | leftParen
  | rightParen
  | leftBracket
  | rightBracket
  | comma
  | atSign
  | finish
  deriving DecidableEq

namespace TokenKind

/-- The name of a kind of token. -/
def name : TokenKind → String
  | identifier => "IDENTIFIER"
  | int _ => "INT"
  | float _ => "FLOAT"
  | string _ => "STRING"
  | bool _ => "BOOL"
  | operator => "OPERATOR"
  | leftParen => "LPAREN"
  | rightParen => "RPAREN"
  | leftBracket => "LBRACKET"
  | rightBracket => "RBRACKET"
  | comma => "COMMA"
  | atSign => "AT"
  | finish => "END"

/-- Whether a minus sign and a digit directly after such a token start a
negative number instead of a subtraction. -/
def precedesOperand : TokenKind → Bool
  | operator | leftParen | leftBracket | comma | atSign => true
  | _ => false

end TokenKind

/-- A word of a script line. -/
structure Token where
  kind : TokenKind
  text : String
  column : Nat
  deriving DecidableEq

namespace Token

/-- The value of a token: that of a literal, otherwise the text. -/
def value (token : Token) : Plain :=
  match token.kind with
  | .int number => .int number
  | .float number => .float number
  | .string content => .str content
  | .bool flag => .bool flag
  | .finish => .null
  | _ => .str token.text

/-- One line that shows the token. -/
def summary (token : Token) : String :=
  match token.kind with
  | .finish => "Token(END, @" ++ integerText token.column ++ ")"
  | kind =>
    "Token(" ++ kind.name ++ ", " ++ Text.quoted token.text ++ ", @" ++
      integerText token.column ++ ")"

/-- Whether the token ends the line. -/
def isFinish (token : Token) : Bool :=
  token.kind == .finish

/-- Whether the token is the operator with the given text. -/
def isOperator (token : Token) (text : String) : Bool :=
  token.kind == .operator && token.text == text

end Token

end Patchwork
