import Patchwork.Expression.Reading
import Patchwork.Query
import Patchwork.Statement.Line

/-!
# Statements

A line is read as a definition, a definition by a group query, an extraction or
an invocation.  A right side that has the outline of a group query is never
read as an expression.
-/

namespace Patchwork

/-- A group query that has been read. -/
structure GroupQuery where
  selector : String
  definition : RecordDefinition
  condition : Node

/-- What a line does. -/
inductive Statement
  /-- Defines a name as a value, or a table entry as an expression. -/
  | define (target : Target) (expression : Node)
  /-- Defines a name or a table entry as the result of a group query. -/
  | query (target : Target) (query : GroupQuery)
  /-- Moves records from one group into another. -/
  | extract (target : Target) (source : String) (condition : Node)
  /-- Evaluates an expression for its effects. -/
  | invoke (expression : Node)

namespace Statement

/-- Reads a group query, if the text has the outline of one. -/
def readQuery (names : Names) (text : String) : Except Fault (Option GroupQuery) :=
  match QueryText.ofText? text with
  | none => .ok none
  | some parts =>
    match RecordDefinition.ofText? parts.body with
    | none => .error (.reading (.badRecordDefinition parts.body) none)
    | some definition => do
      let condition ← Node.ofText names definition.condition
      return some ⟨Text.trim parts.mods, definition, condition⟩

/-- The two sides of an operator in a line. -/
def sides (operator : List Char) (line : String) : String × String :=
  match Text.breakOn? operator line.toList with
  | some (left, right) => (String.ofList left, String.ofList right)
  | none => (line, "")

/-- Reads a definition. -/
def readDefinition (names : Names) (line : String) : Except Fault Statement := do
  let (left, right) := sides definitionOperator line
  let target ← Target.ofText left
  let right := Text.trim right
  if right == "" then throw (.reading (.nothingAssigned target.text) none)
  match ← readQuery names right with
  | some found => return .query target found
  | none => return .define target (← Node.ofText names right)

/-- Reads an extraction. -/
def readExtraction (names : Names) (line : String) : Except Fault Statement := do
  let (left, right) := sides extractionOperator line
  let target ← Target.ofText left
  match ExtractionText.ofText? right with
  | none => throw (.reading .badExtraction none)
  | some parts => return .extract target parts.source (← Node.ofText names parts.condition)

/-- Reads a line that applies procedures to a group. -/
def readPipe (names : Names) (line : String) : Except Fault Statement := do
  match ← Node.ofText names line with
  | .pipe left procedure arguments pairwise =>
    return .invoke (.pipe left procedure arguments pairwise)
  | other => throw (.reading (.notPipe (other.text names.labels)) none)

/-- Reads a stripped line that is not empty. -/
def ofLine (names : Names) (line : String) : Except Fault Statement := do
  match ← classifyLine line with
  | .definition => readDefinition names line
  | .extraction => readExtraction names line
  | .command => return .invoke (← Node.ofCommandText names line)
  | .procedure => readPipe names line

end Statement

end Patchwork
