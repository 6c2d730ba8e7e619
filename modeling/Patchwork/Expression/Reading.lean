import Patchwork.Environment

/-!
# Reading expressions

Tokens are read as an expression by precedence climbing.  Names are resolved
while reading: a call is bound to the built-in it names, and a bare name to the
parameter of an enclosing lambda or to its present definition.  A fault of
scanning only counts when reading gets to the place where scanning stopped.
-/

namespace Patchwork

/-- What names mean while an expression is read. -/
structure Names where
  environment : Environment
  labels : Labels
  /-- The parameters of the enclosing lambdas. -/
  parameters : List String := []

/-- The tokens still to read, the first of which is the current one, and why
there are no more after them. -/
structure Cursor where
  tokens : List Token
  fault? : Option ScanFault

/-- A step of reading. -/
abbrev Reader := StateT Cursor (Except Fault)

namespace Reader

/-- Fails at a token. -/
def failAt {Result : Type} (token : Token) (fault : ReadingFault) : Reader Result :=
  throw (.reading fault (some token))

/-- Fails because scanning stopped. -/
def stopped {Result : Type} : Reader Result := do
  match (← get).fault? with
  | some fault => throw (.scan fault)
  | none => throw (.reading .unexpectedEnd none)

/-- The current token. -/
def current : Reader Token := do
  match (← get).tokens with
  | token :: _ => return token
  | [] => stopped

/-- The token after the current one; after the end comes the end. -/
def next : Reader Token := do
  match (← get).tokens with
  | token :: following :: _ => return if token.isFinish then token else following
  | [token] => if token.isFinish then return token else stopped
  | [] => stopped

/-- Moves on to the next token, unless at the end, and gives the token moved
over. -/
def advance : Reader Token := do
  let cursor ← get
  match cursor.tokens with
  | token :: following :: rest =>
    if token.isFinish then return token
    else
      set { cursor with tokens := following :: rest }
      return token
  | [token] => if token.isFinish then return token else stopped
  | [] => stopped

/-- Whether the current token is of a kind. -/
def at? (kind : TokenKind) : Reader Bool :=
  return (← current).kind == kind

/-- Moves over a token of a kind, or fails at the current one. -/
def expect (kind : TokenKind) (fault : ReadingFault) : Reader Token := do
  let token ← current
  if token.kind == kind then advance else failAt token fault

/-- Fails unless all tokens have been read. -/
def expectFinish : Reader Unit := do
  let token ← current
  if !token.isFinish then failAt token .trailingInput

/-- Reads a text from its first token on. -/
def run {Result : Type} (reader : Reader Result) (text : String) : Except Fault Result :=
  let scan := Scan.ofText text
  (StateT.run (do let _ ← current; reader) ⟨scan.tokens, scan.fault?⟩).map Prod.fst

end Reader

open Reader

/-- What may stand between two operands. -/
inductive Connective
  | arrow
  | operator (between : BinaryOperator)

namespace Connective

/-- The operator of a token that stands between operands. -/
def ofToken? (token : Token) : Option Connective :=
  if token.kind == .operator then
    if token.text == "->" then some .arrow
    else (BinaryOperator.ofSymbol? token.text).map .operator
  else none

/-- How tightly the operator binds. -/
def level : Connective → Nat
  | arrow => 0
  | operator between => between.level

end Connective

/-- The level of an operand of an operator before one operand. -/
def operandLevel : Nat := 7

/-- The level of the body of a lambda. -/
def bodyLevel : Nat := 1

/-- A procedure call behind an arrow. -/
def makePipe (names : Names) (token : Token) (left right : Node) : Reader Node :=
  match right with
  | .procedure procedure arguments pairwise =>
    if left.producesGroup then return .pipe left procedure arguments pairwise
    else failAt token (.notGroup (left.text names.labels))
  | other => failAt token (.notProcedure (other.text names.labels))

/-- Two operands with an operator between them. -/
def makeJoined (names : Names) (token : Token) (operator : Connective) (left right : Node) :
    Reader Node :=
  match operator with
  | .arrow => makePipe names token left right
  | .operator between => return .binary between left right

/-- What a bare name stands for. -/
def readName (names : Names) (token : Token) : Reader Node :=
  if names.parameters.contains token.text then return .parameter token.text
  else
    match names.environment.lookup? token.text with
    | none => failAt token (.unknownName token.text)
    | some (.group group) => return .group group
    | some value => return .literal value

/-- A call with its arguments. -/
def makeCall (token : Token) (callee : Callee) (arguments : List Node) : Reader Node :=
  match callee.arity.problem? callee.name arguments.length with
  | some problem => failAt token (.wrongArity problem)
  | none =>
    match callee with
    | .predicate predicate => return .test predicate arguments
    | .procedure procedure => return .procedure procedure arguments false
    | .function function => return .call function arguments

/-- A procedure call marked as pairwise. -/
def makePairwise (token : Token) (arguments : List Node) : Reader Node :=
  match arguments with
  | [.procedure procedure inner _] =>
    if procedure.hasSource then return .procedure procedure inner true
    else failAt token (.noSourceGroup procedure.name)
  | _ => failAt token .notOneProcedure

/-- The name that marks a procedure call as pairwise. -/
def pairwiseName : String := "OneToOne"

mutual

/-- Reads operands joined by operators of a level or above. -/
def readOperation : (budget : Nat) → Names → (level : Nat) → Reader Node
  | 0, _, _ => throw (.reading .tooDeep none)
  | budget + 1, names, level => do
    let left ← readOperand budget names
    readOperations budget names level left

/-- Reads the operators of a level or above that follow an operand, with their
right operands. -/
def readOperations : (budget : Nat) → Names → (level : Nat) → Node → Reader Node
  | 0, _, _, _ => throw (.reading .tooDeep none)
  | budget + 1, names, level, left => do
    let token ← current
    match Connective.ofToken? token with
    | none => return left
    | some operator =>
      if operator.level < level then return left
      else
        let _ ← advance
        let right ← readOperation budget names (operator.level + 1)
        let joined ← makeJoined names token operator left right
        readOperations budget names level joined

/-- Reads an operand with the operators before it and the indexes after it. -/
def readOperand : (budget : Nat) → Names → Reader Node
  | 0, _ => throw (.reading .tooDeep none)
  | budget + 1, names => do
    let token ← current
    match if token.kind == .operator then UnaryOperator.ofSymbol? token.text else none with
    | some operator =>
      let _ ← advance
      return .unary operator (← readOperation budget names operandLevel)
    | none =>
      let primary ← readPrimary budget names
      readIndexes budget names primary

/-- Reads the indexes after an operand. -/
def readIndexes : (budget : Nat) → Names → Node → Reader Node
  | 0, _, _ => throw (.reading .tooDeep none)
  | budget + 1, names, target => do
    if ← at? .leftBracket then
      let _ ← advance
      let position ← readOperation budget names 0
      let _ ← expect .rightBracket .openIndex
      readIndexes budget names (.index target position)
    else return target

/-- Reads a literal, a name, a call, a lambda, an array or an expression in
parentheses. -/
def readPrimary : (budget : Nat) → Names → Reader Node
  | 0, _ => throw (.reading .tooDeep none)
  | budget + 1, names => do
    let token ← current
    match token.kind with
    | .int number =>
      let _ ← advance
      return .literal (.integer number)
    | .float number =>
      let _ ← advance
      return .literal (.float number)
    | .string content =>
      let _ ← advance
      return .literal (.string content)
    | .bool flag =>
      let following ← next
      let _ ← advance
      if following.kind == .leftParen then readCall budget names token
      else return .literal (.boolean flag)
    | .identifier => readIdentifier budget names
    | .leftParen =>
      let _ ← advance
      let inner ← readOperation budget names 0
      let _ ← expect .rightParen .openParen
      return inner
    | .leftBracket =>
      let _ ← advance
      let elements ← readList budget names .rightBracket
      let _ ← expect .rightBracket .openArray
      return .array elements
    | .finish => failAt token .unexpectedEnd
    | _ => failAt token (.unexpectedToken token.text)

/-- Reads a name and what it introduces: a lambda, a table, a call or
nothing more. -/
def readIdentifier : (budget : Nat) → Names → Reader Node
  | 0, _ => throw (.reading .tooDeep none)
  | budget + 1, names => do
    let following ← next
    let token ← advance
    if following.isOperator "=>" then
      let _ ← advance
      let inner := { names with parameters := names.parameters ++ [token.text] }
      return .lambda token.text (← readOperation budget inner bodyLevel)
    else if following.kind == .leftBracket then return .tableName token.text
    else if following.kind == .leftParen then readCall budget names token
    else readName names token

/-- Reads expressions with commas between them, up to a closing token. -/
def readList : (budget : Nat) → Names → (closing : TokenKind) → Reader (List Node)
  | 0, _, _ => throw (.reading .tooDeep none)
  | budget + 1, names, closing => do
    if ← at? closing then return []
    else
      let first ← readOperation budget names 0
      return first :: (← readMore budget names)

/-- Reads further expressions, each after a comma. -/
def readMore : (budget : Nat) → Names → Reader (List Node)
  | 0, _ => throw (.reading .tooDeep none)
  | budget + 1, names => do
    if ← at? .comma then
      let _ ← advance
      let first ← readOperation budget names 0
      return first :: (← readMore budget names)
    else return []

/-- Reads the arguments of a call in parentheses. -/
def readArguments : (budget : Nat) → Names → Reader (List Node)
  | 0, _ => throw (.reading .tooDeep none)
  | budget + 1, names => do
    let _ ← expect .leftParen .noArguments
    let arguments ← readList budget names .rightParen
    let _ ← expect .rightParen .openArguments
    return arguments

/-- Reads the arguments of the call a name starts. -/
def readCall : (budget : Nat) → Names → Token → Reader Node
  | 0, _, _ => throw (.reading .tooDeep none)
  | budget + 1, names, token => do
    if token.text == pairwiseName then
      makePairwise token (← readArguments budget names)
    else
      match Callee.named? token.text with
      | none => failAt token (.unknownFunction token.text)
      | some callee => makeCall token callee (← readArguments budget names)

end

/-- How deeply and how often reading may call itself on a number of tokens. -/
def readingBudget (tokens : Nat) : Nat :=
  16 * tokens + 16

/-- The budget for the tokens still to read. -/
def budgetHere : Reader Nat :=
  return readingBudget (← get).tokens.length

/-- Reads a whole text as an expression. -/
def Node.ofText (names : Names) (text : String) : Except Fault Node :=
  Reader.run (do
    let node ← readOperation (← budgetHere) names 0
    expectFinish
    return node) text

/-- Reads a whole text as a command after an at sign. -/
def Node.ofCommandText (names : Names) (text : String) : Except Fault Node :=
  Reader.run (do
    let _ ← expect .atSign .noAtSign
    let token ← expect .identifier .noCommandName
    match Command.named? token.text with
    | none => failAt token (.unknownCommand token.text)
    | some named =>
      let arguments ← readArguments (← budgetHere) names
      match named.arity.problem? named.name arguments.length with
      | some problem => failAt token (.wrongArity problem)
      | none =>
        expectFinish
        return .command named arguments) text

/-- What the name of a call stands for. -/
def Callee.named (name : String) : Except Fault Callee :=
  match Callee.named? name with
  | some callee => .ok callee
  | none => .error (.reading (.unknownFunction name) none)

end Patchwork
