import Patchwork.Fault
import Patchwork.Text.Letter

/-!
# Group queries

A group query selects mods, says which kind of record to take from them and
which of the merged records to keep: every match or the first one only.  It is
written as two pairs of parentheses, the mods in the first one and the code of
the mode, the kind and the condition in the second one.
-/

namespace Patchwork

/-- How many of the merged records a query keeps. -/
inductive SelectionMode
  | allMatches | firstMatch
  deriving DecidableEq, Repr

namespace SelectionMode

/-- The name of a mode. -/
def name : SelectionMode → String
  | allMatches => "ALL_MATCHES"
  | firstMatch => "FIRST_MATCH"

/-- The mode with a code. -/
def ofCode (code : String) : Except Fault SelectionMode :=
  if code == "A" then .ok allMatches
  else if code == "E" then .ok firstMatch
  else .error (.unknownMode code)

end SelectionMode

/-- Which records a query takes and which of them it keeps. -/
structure RecordDefinition where
  mode : SelectionMode
  kind : String
  condition : String
  deriving DecidableEq, Repr

namespace RecordDefinition

/-- A character the kind of a record may contain in a query. -/
def isKindChar (char : Char) : Bool :=
  ('A' ≤ char && char ≤ 'Z') || ('0' ≤ char && char ≤ '9') || char == '_'

/-- The mode with a code of one character. -/
def modeOfChar? : Char → Option SelectionMode
  | 'A' => some .allMatches
  | 'E' => some .firstMatch
  | _ => none

/-- Reads a mode, a colon, a kind, a bar and a condition on one line. -/
def ofText? (text : String) : Option RecordDefinition :=
  match Text.trimChars text.toList with
  | code :: ':' :: rest =>
    let kind := rest.takeWhile isKindChar
    match modeOfChar? code, kind, rest.dropWhile isKindChar with
    | some mode, _ :: _, '|' :: condition =>
      if condition.isEmpty || condition.contains '\n' then none
      else some ⟨mode, String.ofList kind, String.ofList (Text.trimChars condition)⟩
    | _, _, _ => none
  | _ => none

end RecordDefinition

/-- A group query as it is written, cut into its two parts. -/
structure QueryText where
  mods : String
  body : String
  deriving DecidableEq, Repr

namespace QueryText

/-- A character the list of mods may contain. -/
def isModsChar (char : Char) : Bool :=
  Text.isWord char || char == '.' || char == ',' || char == '*' || char == ' ' || char == '-'

/-- Whether a bar stands before the first closing parenthesis with no line feed
after the last such bar. -/
def hasBar (body : List Char) : Bool :=
  let beforeParen := body.takeWhile (· != ')')
  let afterParen := body.dropWhile (· != ')')
  beforeParen.contains '|' &&
    !((beforeParen.reverse.takeWhile (· != '|')).contains '\n' || afterParen.contains '\n')

/-- Cuts a text into the two parts of a query, if it has them. -/
def ofText? (text : String) : Option QueryText :=
  match Text.trimChars text.toList with
  | '(' :: rest =>
    let mods := rest.takeWhile isModsChar
    match mods, rest.dropWhile isModsChar with
    | _ :: _, ')' :: '(' :: body =>
      match body.reverse with
      | ')' :: reversed =>
        if hasBar reversed.reverse then
          some ⟨String.ofList mods, String.ofList reversed.reverse⟩
        else none
      | _ => none
    | _, _ => none
  | _ => none

end QueryText

end Patchwork
