import Patchwork.Fault
import Patchwork.Text.Letter

/-!
# Lines of a script

A script has one statement a line.  The operator in a line tells which kind of
statement it is.  The left side of a definition or an extraction is a name or
an entry of a table; the right side of an extraction is a name and a condition
in parentheses.
-/

namespace Patchwork

/-- The kinds of lines. -/
inductive LineKind
  | definition | extraction | command | procedure
  deriving DecidableEq, Repr

namespace LineKind

/-- The name of a kind of line. -/
def name : LineKind → String
  | definition => "DEFINITION"
  | extraction => "EXTRACTION"
  | command => "GLOBAL_CALL"
  | procedure => "PROCEDURE"

end LineKind

/-- The operator of a definition. -/
def definitionOperator : List Char := [':', '=']

/-- The operator of an extraction. -/
def extractionOperator : List Char := ['<', '<', '<']

/-- The operator before a procedure. -/
def pipeOperator : List Char := ['-', '>']

/-- The line without the comment, which starts at the first semicolon, and
without the blanks around the rest. -/
def stripComment (line : String) : String :=
  String.ofList (Text.trimChars (line.toList.takeWhile (· != ';')))

/-- The kind of a stripped line. -/
def classifyLine (line : String) : Except Fault LineKind :=
  let chars := line.toList
  if Text.occursIn definitionOperator chars then .ok .definition
  else if Text.occursIn extractionOperator chars then .ok .extraction
  else if chars.head? = some '@' then .ok .command
  else if Text.occursIn pipeOperator chars then .ok .procedure
  else .error (.reading .unrecognized none)

/-- What a line assigns to: a name, or the entry of a table with a key. -/
structure Target where
  name : String
  key : Option String := none
  deriving DecidableEq, Repr

namespace Target

/-- Whether the target is an entry of a table. -/
def isTableEntry (target : Target) : Bool :=
  target.key.isSome

/-- The target in writing. -/
def text (target : Target) : String :=
  match target.key with
  | none => target.name
  | some key => target.name ++ "[" ++ key ++ "]"

/-- The key between brackets.  Blanks around it do not count, but a key of
blanks alone is the last one of them; there has to be something. -/
def keyBetween? (inner : List Char) : Option (List Char) :=
  match Text.trimChars inner with
  | [] => inner.getLast?.map fun blank => [blank]
  | key => some key

/-- A key without the quotes around it, if it has them. -/
def unquoted (key : List Char) : List Char :=
  match key with
  | '"' :: rest =>
    match rest.reverse with
    | '"' :: reversed => reversed.reverse
    | _ => key
  | _ => key

/-- Reads a name followed by a key in brackets. -/
def tableEntry? (chars : List Char) : Option Target :=
  let name := chars.takeWhile Text.isWord
  match name, Text.trimLeft (chars.dropWhile Text.isWord) with
  | _ :: _, '[' :: rest =>
    let inner := rest.takeWhile (· != ']')
    match rest.dropWhile (· != ']'), keyBetween? inner with
    | [']'], some key => some ⟨String.ofList name, some (String.ofList (unquoted key))⟩
    | _, _ => none
  | _, _ => none

/-- Reads the left side of a line. -/
def ofText (text : String) : Except Fault Target :=
  let chars := Text.trimChars text.toList
  match tableEntry? chars with
  | some target => .ok target
  | none =>
    if !chars.isEmpty && chars.all Text.isWord then .ok ⟨String.ofList chars, none⟩
    else .error (.reading (.badTarget (String.ofList chars)) none)

end Target

/-- The right side of an extraction: the group to take from and the condition,
not yet read. -/
structure ExtractionText where
  source : String
  condition : String
  deriving DecidableEq, Repr

namespace ExtractionText

/-- The condition between a bar and the closing parenthesis.  Blanks around it
do not count, but of blanks alone the last one is the condition that is no line
feed. -/
def conditionBetween? (inner : List Char) : Option (List Char) :=
  match Text.trimChars inner with
  | [] => (inner.reverse.find? (· != '\n')).map fun blank => [blank]
  | condition => if condition.contains '\n' then none else some condition

/-- Cuts the right side of an extraction into its two parts. -/
def ofText? (text : String) : Option ExtractionText :=
  match Text.trimChars text.toList with
  | '(' :: rest =>
    let body := Text.trimLeft rest
    let source := body.takeWhile Text.isWord
    match source, Text.trimLeft (body.dropWhile Text.isWord) with
    | _ :: _, '|' :: inner =>
      match inner.reverse with
      | ')' :: reversed =>
        (conditionBetween? reversed.reverse).map fun condition =>
          ⟨String.ofList source, String.ofList condition⟩
      | _ => none
    | _, _ => none
  | _ => none

end ExtractionText

end Patchwork
