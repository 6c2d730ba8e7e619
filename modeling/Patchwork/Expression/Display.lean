import Patchwork.Expression

/-!
# Texts of values and expressions

How values are shown to the user and stored in fields, and how expressions are
written.  A record group shows its records, so the texts depend on how each
record is called.
-/

namespace Patchwork

/-- How records are called. -/
abbrev Labels := RecordRef → String

/-- The first number, ten to the fifteenth, that is not shown without a
fraction part. -/
def wholeDisplayLimit : Binary64 :=
  .ofRatio false (Nat.pow 10 15) 1

/-- The text of a floating-point number: as an integer when it is whole and not
too large. -/
def floatDisplay (number : Binary64) : String :=
  match number.isWhole && number.magnitude.less wholeDisplayLimit, number.truncate? with
  | true, some whole => integerText whole
  | _, _ => Shortest.text number

/-- A call in writing. -/
def callText (name : String) (arguments : List String) : String :=
  name ++ "(" ++ Text.joined ", " arguments ++ ")"

/-- A procedure call in writing. -/
def procedureText (procedure : Procedure) (arguments : List String) (pairwise : Bool) :
    String :=
  if pairwise then callText "OneToOne" [callText procedure.name arguments]
  else callText procedure.name arguments

mutual

/-- The text of a value. -/
def Value.display (labels : Labels) : Value → String
  | .integer number => integerText number
  | .float number => floatDisplay number
  | .string text => text
  | .boolean flag => if flag then "true" else "false"
  | .array items => "[" ++ Text.joined ", " (displayItems labels items) ++ "]"
  | .group group => group.text labels
  | .closure _ parameter body _ => "Lambda(" ++ parameter ++ " => " ++ Node.text labels body ++ ")"
  | .table name => name
  | .null => "null"

/-- An expression in writing. -/
def Node.text (labels : Labels) : Node → String
  | .literal (.string text) => "\"" ++ text ++ "\""
  | .literal value => Value.display labels value
  | .parameter name => name
  | .unary operator operand => operator.symbol ++ Node.text labels operand
  | .binary operator left right =>
    "(" ++ Node.text labels left ++ " " ++ operator.symbol ++ " " ++ Node.text labels right ++ ")"
  | .call function arguments => callText function.name (nodeTexts labels arguments)
  | .test predicate arguments => callText predicate.name (nodeTexts labels arguments)
  | .array elements => "[" ++ Text.joined ", " (nodeTexts labels elements) ++ "]"
  | .tableName name => name
  | .index target position =>
    Node.text labels target ++ "[" ++ Node.text labels position ++ "]"
  | .group group => "<group of " ++ integerText group.size ++ ">"
  | .procedure procedure arguments pairwise =>
    procedureText procedure (nodeTexts labels arguments) pairwise
  | .pipe left procedure arguments pairwise =>
    Node.text labels left ++ " -> " ++
      procedureText procedure (nodeTexts labels arguments) pairwise
  | .lambda parameter body => parameter ++ " => " ++ Node.text labels body
  | .command command arguments => "@" ++ callText command.name (nodeTexts labels arguments)

/-- The texts of the elements of an array. -/
def displayItems (labels : Labels) : List Value → List String
  | [] => []
  | item :: rest => Value.display labels item :: displayItems labels rest

/-- The expressions of a list in writing. -/
def nodeTexts (labels : Labels) : List Node → List String
  | [] => []
  | node :: rest => Node.text labels node :: nodeTexts labels rest

end

namespace Value

/-- The kind and the text of a value, as messages show it. -/
def summary (labels : Labels) : Value → String
  | .null => "Value(NULL)"
  | value =>
    "Value(" ++ value.kindName ++ ", " ++ Text.quoted (value.display labels) ++ ")"

end Value

end Patchwork
