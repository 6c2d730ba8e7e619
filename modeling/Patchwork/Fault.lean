import Patchwork.Token.Scan

/-!
# Faults

Everything that can go wrong in a script, by cause.  A fault carries the texts
of the values it is about as they were when it arose; `message` puts its cause
into words.
-/

namespace Patchwork

/-- A number that cannot be turned into another kind of number, or an operation
on numbers without a result. -/
inductive NumberFault
  | integerTooLarge
  | quotientTooLarge
  | infinityToInteger
  | nanToInteger
  | outsideDomain
  deriving DecidableEq, Repr

namespace NumberFault

/-- The text of the error. -/
def message : NumberFault → String
  | integerTooLarge => "int too large to convert to float"
  | quotientTooLarge => "integer division result too large for a float"
  | infinityToInteger => "cannot convert float infinity to integer"
  | nanToInteger => "cannot convert float NaN to integer"
  | outsideDomain => "math domain error"

/-- Whether the fault is about a number that is too large. -/
def isOverflow : NumberFault → Bool
  | integerTooLarge | quotientTooLarge | infinityToInteger => true
  | nanToInteger | outsideDomain => false

end NumberFault

/-- The types a field value may have. -/
inductive FieldType
  | int | float | bool | text | list | mapping
  deriving DecidableEq, Repr

namespace FieldType

/-- The name of a type as messages give it. -/
def name : FieldType → String
  | int => "int"
  | float => "float"
  | bool => "bool"
  | text => "str"
  | list => "list"
  | mapping => "dict"

end FieldType

/-- Why a mod's records cannot be changed as asked. -/
inductive StoreFault
  | unstorable (text : String) (type : FieldType)
  | unsupportedType (type : FieldType)
  | noField (record name : String)
  | unknownType (declared : String)
  | deletedRecord (record mod : String)
  | negativeCount (count : Int)
  deriving DecidableEq, Repr

/-- The names a field type may be declared by. -/
def declaredTypes : List (String × FieldType) :=
  [("bool", .bool), ("boolean", .bool), ("double", .float), ("float", .float),
    ("int", .int), ("integer", .int), ("str", .text), ("string", .text)]

namespace StoreFault

/-- The text of the error. -/
def message : StoreFault → String
  | unstorable text type =>
    "Cannot store " ++ Text.quoted text ++ " in a " ++ type.name ++ " field"
  | unsupportedType type => "Unsupported field type " ++ type.name
  | noField record name =>
    "Record " ++ record ++ " has no field '" ++ name ++ "' (use ForceSetField to create it)"
  | unknownType declared =>
    "Unknown field type '" ++ declared ++ "' (expected one of " ++
      Text.joined ", " (declaredTypes.map Prod.fst) ++ ")"
  | deletedRecord record mod =>
    "Record " ++ record ++ " was deleted from " ++ mod ++ " and cannot be edited"
  | negativeCount count => "Cannot clone a record " ++ integerText count ++ " times"

end StoreFault

/-- What a value was to be turned into. -/
inductive Conversion
  | float | integer | boolean
  deriving DecidableEq, Repr

/-- The result of a conversion in words. -/
def Conversion.text : Conversion → String
  | float => "a float"
  | integer => "an integer"
  | boolean => "a boolean"

/-- The kind of value that was needed. -/
inductive Expectation
  | string | boolean | group | array | lambda | integer
  deriving DecidableEq, Repr

/-- The kind of value that was needed in words. -/
def Expectation.text : Expectation → String
  | string => "a string"
  | boolean => "a boolean"
  | group => "a record group"
  | array => "an array"
  | lambda => "a lambda"
  | integer => "an integer"

/-- Why an expression has no value. -/
inductive EvaluationFault
  | notScriptValue (kind : String)
  | notConvertible (value : String) (conversion : Conversion)
  | divisionByZero
  | moduloByZero
  | unknownBinary (symbol : String)
  | unknownUnary (symbol : String)
  | cannotApply (symbol left right : String) (cause : NumberFault)
  | expected (expectation : Expectation) (purpose value : String)
  | parameterOutside (name : String)
  | indexOutOfRange (position : Int) (size : Nat)
  | notIndexable (value : String)
  | noTarget (procedure : String)
  | wrongArgumentCount (parameters : List String) (given : Nat)
  | unboundParameter (name : String)
  | insideLambda (node : String) (cause : EvaluationFault)
  | needsRecord (name : String)
  | noField (name record : String)
  | emptyArray (purpose : String)
  | elementOutOfRange (position : Int) (size : Nat)
  | elementNotInteger (element : String)
  | emptyRange (high low : Int)
  | cloneOfGroup (size : Nat)
  | notInGroup (id : String)
  | unevenPairs (targets sources : Nat)
  | transformedToOther (value : String)
  | noTable (table : String)
  | noKey (key table : String)
  | noDefinition (name : String)
  | notGroupDefinition (name : String)
  | noActiveMod
  | missingArgument (name : String)
  | tooDeep
  deriving DecidableEq, Repr

namespace EvaluationFault

/-- The text of the error. -/
def message : EvaluationFault → String
  | notScriptValue kind => "Cannot use " ++ kind ++ " as a script value"
  | notConvertible value conversion => "Cannot convert " ++ value ++ " to " ++ conversion.text
  | divisionByZero => "Division by zero"
  | moduloByZero => "Modulo by zero"
  | unknownBinary symbol => "Unknown binary operator '" ++ symbol ++ "'"
  | unknownUnary symbol => "Unknown unary operator '" ++ symbol ++ "'"
  | cannotApply symbol left right cause =>
    "Cannot apply '" ++ symbol ++ "' to " ++ left ++ " and " ++ right ++ ": " ++ cause.message
  | expected expectation purpose value =>
    "Expected " ++ expectation.text ++ " for " ++ purpose ++ ", got " ++ value
  | parameterOutside name => "Variable '" ++ name ++ "' can only be used inside a lambda"
  | indexOutOfRange position size =>
    "Index " ++ integerText position ++ " out of range for array of " ++ integerText size ++
      " elements"
  | notIndexable value => "Cannot index into " ++ value
  | noTarget procedure => "Procedure " ++ procedure ++ " has no target group"
  | wrongArgumentCount parameters given =>
    "Lambda (" ++ Text.joined ", " parameters ++ ") expects " ++ integerText parameters.length ++
      " argument(s), got " ++ integerText given
  | unboundParameter name => "Variable '" ++ name ++ "' is not bound in this lambda"
  | insideLambda node cause =>
    "Error evaluating " ++ node ++ " inside lambda: " ++ cause.message
  | needsRecord name => name ++ " needs a current record"
  | noField name record => "Field '" ++ name ++ "' not found on " ++ record
  | emptyArray purpose => purpose ++ " of an empty array"
  | elementOutOfRange position size =>
    "ArrIndex index " ++ integerText position ++ " out of range for " ++ integerText size ++
      " elements"
  | elementNotInteger element => "ArrIndex element " ++ element ++ " is not an integer"
  | emptyRange high low =>
    "RandomBetweenInts maximum " ++ integerText high ++ " is below minimum " ++ integerText low
  | cloneOfGroup size =>
    "Clone needs a group with exactly one record, got " ++ integerText size
  | notInGroup id => "No record with StringId '" ++ id ++ "' in group"
  | unevenPairs targets sources =>
    "One-to-one call needs groups of equal size (" ++ integerText targets ++ " targets, " ++
      integerText sources ++ " sources)"
  | transformedToOther value =>
    "Extra data transformer must return an integer, got " ++ value
  | noTable table => "Table '" ++ table ++ "' is not defined"
  | noKey key table => "Key '" ++ key ++ "' not found in table '" ++ table ++ "'"
  | noDefinition name => "Unknown definition '" ++ name ++ "'"
  | notGroupDefinition name => "Definition '" ++ name ++ "' is not a record group"
  | noActiveMod => "No active mod is loaded"
  | missingArgument name => name ++ " lacks an argument"
  | tooDeep => "Tables and lambdas are nested too deeply"

end EvaluationFault

/-- Why a line cannot be read. -/
inductive ReadingFault
  | trailingInput
  | noAtSign
  | noCommandName
  | unknownCommand (name : String)
  | wrongArity (problem : String)
  | notProcedure (right : String)
  | notGroup (left : String)
  | openIndex
  | openParen
  | unexpectedEnd
  | unexpectedToken (text : String)
  | unknownName (name : String)
  | openArray
  | noArguments
  | openArguments
  | unknownFunction (name : String)
  | notOneProcedure
  | noSourceGroup (procedure : String)
  | unrecognized
  | badTarget (text : String)
  | badRecordDefinition (body : String)
  | nothingAssigned (target : String)
  | badExtraction
  | notPipe (node : String)
  | tooDeep
  deriving DecidableEq, Repr

namespace ReadingFault

/-- The cause in words. -/
def text : ReadingFault → String
  | trailingInput => "Unexpected trailing input"
  | noAtSign => "Global function calls start with '@'"
  | noCommandName => "Expected a global function name after '@'"
  | unknownCommand name => "Unknown global function '" ++ name ++ "'"
  | wrongArity problem => problem
  | notProcedure right => "Right side of '->' must be a procedure call, got " ++ right
  | notGroup left => "Left side of '->' must be a record group, got " ++ left
  | openIndex => "Expected ']' after index"
  | openParen => "Expected ')'"
  | unexpectedEnd => "Unexpected end of input"
  | unexpectedToken text => "Unexpected token " ++ Text.quoted text
  | unknownName name => "Unknown identifier '" ++ name ++ "'"
  | openArray => "Expected ']' to close array"
  | noArguments => "Expected '(' to start arguments"
  | openArguments => "Expected ')' to close arguments"
  | unknownFunction name => "Unknown function '" ++ name ++ "'"
  | notOneProcedure => "OneToOne takes exactly one procedure call"
  | noSourceGroup procedure => procedure ++ " does not take a source group"
  | unrecognized => "Unrecognized syntax"
  | badTarget text => "Invalid assignment target '" ++ text ++ "'"
  | badRecordDefinition body => "Invalid record definition '" ++ body ++ "'"
  | nothingAssigned target => "Nothing assigned to '" ++ target ++ "'"
  | badExtraction => "Extraction must look like: name <<< (source | condition)"
  | notPipe node => "Expected 'group -> Procedure(...)', got " ++ node
  | tooDeep => "Expression is nested too deeply"

/-- The text of the error, with the token it is about if there is one. -/
def message (fault : ReadingFault) (token : Option Token) : String :=
  match token with
  | none => "Parse error: " ++ fault.text
  | some token =>
    if token.isFinish then "Parse error at end of input: " ++ fault.text
    else
      "Parse error at column " ++ integerText token.column ++ " (" ++
        Text.quoted token.text ++ "): " ++ fault.text

end ReadingFault

/-- Why a line, an expression or an operation of a script fails. -/
inductive Fault
  | scan (fault : ScanFault)
  | reading (fault : ReadingFault) (token : Option Token)
  | evaluation (fault : EvaluationFault)
  | store (fault : StoreFault)
  | number (fault : NumberFault)
  | unknownMode (code : String)
  deriving DecidableEq

namespace Fault

/-- The text of the error. -/
def message : Fault → String
  | scan fault => fault.message
  | reading fault token => fault.message token
  | evaluation fault => fault.message
  | store fault => fault.message
  | number fault => fault.message
  | unknownMode code => "Unknown record mode '" ++ code ++ "' (expected A or E)"

end Fault

end Patchwork
