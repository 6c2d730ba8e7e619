import Patchwork.Builtin
import Patchwork.Record.Group

/-!
# Expressions and their values

An expression is a tree that is evaluated against a current record, or none.
A value may be a closure, which holds an expression, and an expression may hold
a value it was read with, so the two types are defined together.
-/

namespace Patchwork

/-- The operators between two operands. -/
inductive BinaryOperator
  | or | and | equal | notEqual | greater | less | atLeast | atMost
  | plus | minus | times | divided | modulo
  deriving DecidableEq, Repr

namespace BinaryOperator

/-- Every operator between two operands. -/
def all : List BinaryOperator :=
  [or, and, equal, notEqual, greater, less, atLeast, atMost, plus, minus, times, divided, modulo]

/-- How an operator is written. -/
def symbol : BinaryOperator → String
  | or => "||"
  | and => "&&"
  | equal => "=="
  | notEqual => "!="
  | greater => ">"
  | less => "<"
  | atLeast => ">="
  | atMost => "<="
  | plus => "+"
  | minus => "-"
  | times => "*"
  | divided => "/"
  | modulo => "%"

/-- How tightly an operator binds; the arrow before a procedure has level
zero. -/
def level : BinaryOperator → Nat
  | or => 1
  | and => 2
  | equal | notEqual => 3
  | greater | less | atLeast | atMost => 4
  | plus | minus => 5
  | times | divided | modulo => 6

/-- Whether the right operand is only evaluated when the left one does not
decide. -/
def isLogical : BinaryOperator → Bool
  | or | and => true
  | _ => false

/-- The operator that is written in a given way. -/
def ofSymbol? (symbol : String) : Option BinaryOperator :=
  all.find? fun operator => operator.symbol == symbol

theorem ofSymbol?_symbol (operator : BinaryOperator) :
    ofSymbol? operator.symbol = some operator := by
  cases operator <;> decide

end BinaryOperator

/-- The operators before one operand. -/
inductive UnaryOperator
  | negative | not
  deriving DecidableEq, Repr

namespace UnaryOperator

/-- How an operator is written. -/
def symbol : UnaryOperator → String
  | negative => "-"
  | not => "!"

/-- The operator that is written in a given way. -/
def ofSymbol? (symbol : String) : Option UnaryOperator :=
  [negative, not].find? fun operator => operator.symbol == symbol

end UnaryOperator

mutual

/-- What an expression evaluates to.  A closure has an identity of its own and
remembers the record it was made with. -/
inductive Value
  | integer (number : Int)
  | float (number : Binary64)
  | string (text : String)
  | boolean (flag : Bool)
  | array (items : List Value)
  | group (group : Group)
  | closure (identity : Nat) (parameter : String) (body : Node) (record : Option RecordRef)
  | table (name : String)
  | null

/-- An expression.  A procedure call does its work only after an arrow, in a
`pipe`; it is then marked `pairwise` when targets and sources go together by
position. -/
inductive Node
  | literal (value : Value)
  | parameter (name : String)
  | unary (operator : UnaryOperator) (operand : Node)
  | binary (operator : BinaryOperator) (left right : Node)
  | call (function : Function) (arguments : List Node)
  | test (predicate : Predicate) (arguments : List Node)
  | array (elements : List Node)
  | tableName (name : String)
  | index (target position : Node)
  | group (group : Group)
  | procedure (procedure : Procedure) (arguments : List Node) (pairwise : Bool)
  | pipe (left : Node) (procedure : Procedure) (arguments : List Node) (pairwise : Bool)
  | lambda (parameter : String) (body : Node)
  | command (command : Command) (arguments : List Node)

end

instance : Inhabited Value := ⟨.null⟩

instance : Inhabited Node := ⟨.literal .null⟩

namespace Value

/-- The name of a value's kind. -/
def kindName : Value → String
  | integer _ => "INTEGER"
  | float _ => "FLOAT"
  | string _ => "STRING"
  | boolean _ => "BOOLEAN"
  | array _ => "ARRAY"
  | group _ => "GROUP"
  | closure .. => "CLOSURE"
  | table _ => "TABLE"
  | null => "NULL"

mutual

/-- The same kind of value with equal content: a group with the same records
from the same mods, the same closure, and arrays element by element. -/
def same : Value → Value → Bool
  | .integer left, .integer right => left == right
  | .float left, .float right => left.same right
  | .string left, .string right => left == right
  | .boolean left, .boolean right => left == right
  | .array left, .array right => sameItems left right
  | .group left, .group right => left == right
  | .closure left _ _ _, .closure right _ _ _ => left == right
  | .table left, .table right => left == right
  | .null, .null => true
  | _, _ => false

/-- Equal elements in the same order. -/
def sameItems : List Value → List Value → Bool
  | [], [] => true
  | left :: leftRest, right :: rightRest => same left right && sameItems leftRest rightRest
  | _, _ => false

end

end Value

namespace Node

/-- The name of a node's kind as messages give it. -/
def kindName : Node → String
  | literal _ => "Literal"
  | parameter _ => "Variable"
  | unary .. => "Unary"
  | binary .. => "Binary"
  | call .. => "FunctionCall"
  | test .. => "BoolFunctionCall"
  | array _ => "ArrayNode"
  | tableName _ => "TableRef"
  | index .. => "Index"
  | group _ => "RecordGroupNode"
  | procedure .. => "Procedure"
  | pipe .. => "Pipe"
  | lambda .. => "Lambda"
  | command .. => "GlobalFunctionCall"

/-- Whether a node always evaluates to a record group. -/
def producesGroup : Node → Bool
  | call function _ => function.returnsGroup
  | group _ => true
  | pipe .. => true
  | _ => false

end Node

end Patchwork
