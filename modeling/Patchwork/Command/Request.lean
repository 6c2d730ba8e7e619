import Patchwork.Text.Search

/-!
# Requests

What the arguments of the command line ask for: one of four commands, the
version or help.  An option may be given by any beginning of its long name that
fits no other option, with its value as the next argument or after an equals
sign.  Arguments that make no sense are refused as a whole.
-/

namespace Patchwork

/-- The options of the commands that work on mods. -/
structure Options where
  modsFolder : Option String := none
  settings : Option String := none
  verbose : Bool := false
  deriving DecidableEq, Repr

/-- What is asked for. -/
inductive Request
  | run (mod : String) (options : Options)
  | status (options : Options)
  | tokens (script : String)
  | evolution (id : String) (options : Options)
  | version
  /-- A summary of the commands; `asked` tells whether an option asked for it. -/
  | help (asked : Bool)
  | refused
  deriving DecidableEq, Repr

namespace Request

/-- An argument by its form. -/
inductive Piece
  | word (text : String)
  | option (name : String) (given : Option String)
  | unknown
  deriving DecidableEq, Repr

/-- The part before the first equals sign and the part after it. -/
def splitValue (argument : String) : String × Option String :=
  match Text.breakOn? ['='] argument.toList with
  | some (name, value) => (String.ofList name, some (String.ofList value))
  | none => (argument, none)

/-- Whether an argument is a negative number. -/
def isNegativeNumber (argument : String) : Bool :=
  match argument.toList with
  | '-' :: digits =>
    let whole := digits.takeWhile Char.isDigit
    match digits.dropWhile Char.isDigit with
    | [] => !whole.isEmpty
    | '.' :: fraction => !fraction.isEmpty && fraction.all Char.isDigit
    | _ => false
  | _ => false

/-- The option a shortened or joined argument stands for: a beginning of one
long name, or a letter with something after it. -/
def fittingOption (names : List String) (argument : String) : Option Piece :=
  let (name, value) := splitValue argument
  if names.contains name then some (.option name value)
  else if argument.startsWith "--" then
    match names.filter fun candidate => name.toList.isPrefixOf candidate.toList with
    | [] => none
    | [candidate] => some (.option candidate value)
    | _ => some .unknown
  else
    let letter := String.ofList (argument.toList.take 2)
    if names.contains letter then
      some (.option letter (some (String.ofList (argument.toList.drop 2))))
    else none

/-- An argument by its form, where some options have a meaning. -/
def classify (names : List String) (argument : String) : Piece :=
  if !argument.startsWith "-" || argument == "-" then .word argument
  else if names.contains argument then .option argument none
  else
    match fittingOption names argument with
    | some piece => piece
    | none =>
      if isNegativeNumber argument || argument.toList.contains ' ' then .word argument
      else .unknown

/-- All arguments by their form; after two hyphens everything is a word. -/
def pieces (names : List String) : List String → List Piece
  | [] => []
  | argument :: rest =>
    if argument == "--" then rest.map .word
    else classify names argument :: pieces names rest

/-- What has been read of a command's arguments. -/
structure Draft where
  words : List String := []
  options : Options := {}
  sound : Bool := true
  deriving DecidableEq, Repr

/-- What became of the arguments of a command. -/
inductive Outcome
  | read (draft : Draft)
  | help
  | refused
  deriving DecidableEq, Repr

/-- What letters joined in one argument ask for. -/
def joinedLetters (draft : Draft) : List Char → Outcome
  | [] => .read draft
  | 'v' :: rest => joinedLetters { draft with options.verbose := true } rest
  | 'h' :: rest =>
    match joinedLetters draft rest with
    | .refused => .refused
    | _ => .help
  | _ => .refused

/-- The draft with a value for an option. -/
def Draft.give (draft : Draft) (name value : String) : Draft :=
  if name == "--mods-dir" then { draft with options.modsFolder := some value }
  else { draft with options.settings := some value }

/-- Whether an option has a value. -/
def takesValue (name : String) : Bool :=
  name == "--mods-dir" || name == "--config"

/-- Reads the arguments of a command. -/
def readPieces (draft : Draft) : List Piece → Outcome
  | [] => .read draft
  | .word text :: rest => readPieces { draft with words := draft.words ++ [text] } rest
  | .unknown :: rest => readPieces { draft with sound := false } rest
  | .option name (some value) :: rest =>
    if takesValue name then readPieces (draft.give name value) rest
    else if name == "-v" || name == "-h" then
      match joinedLetters draft (name.toList.drop 1 ++ value.toList) with
      | .read draft => readPieces draft rest
      | outcome => outcome
    else .refused
  | .option name none :: .word value :: rest =>
    if takesValue name then readPieces (draft.give name value) rest
    else if name == "-h" || name == "--help" then .help
    else
      readPieces { draft with options.verbose := true, words := draft.words ++ [value] } rest
  | .option name none :: rest =>
    if takesValue name then .refused
    else if name == "-h" || name == "--help" then .help
    else readPieces { draft with options.verbose := true } rest

/-- The options that ask for help. -/
def helpNames : List String := ["-h", "--help"]

/-- The options of the commands that work on mods. -/
def commonNames : List String := helpNames ++ ["--mods-dir", "--config", "-v", "--verbose"]

/-- The names of the commands. -/
def commandNames : List String := ["run", "status", "tokens", "evolution"]

/-- The request of a command with arguments. -/
def ofCommand (command : String) (arguments : List String) : Request :=
  let names := if command == "tokens" then helpNames else commonNames
  if !commandNames.contains command then .refused
  else
    match readPieces {} (pieces names arguments) with
    | .refused => .refused
    | .help => .help true
    | .read draft =>
      if !draft.sound then .refused
      else
        match command, draft.words with
        | "run", [mod] => .run mod draft.options
        | "status", [] => .status draft.options
        | "tokens", [script] => .tokens script
        | "evolution", [id] => .evolution id draft.options
        | _, _ => .refused

/-- The request of all arguments.  What stands before the command may only be an
option that asks for the version or for help; `sound` tells whether nothing else
came so far. -/
def read (sound : Bool) : List String → Request
  | [] => if sound then .help false else .refused
  | argument :: rest =>
    match classify (helpNames ++ ["--version"]) argument with
    | .option "--version" none => .version
    | .option "-h" none | .option "--help" none => .help true
    | .option _ _ => .refused
    | .unknown => read false rest
    | .word command =>
      match ofCommand command rest with
      | .help asked => .help asked
      | request => if sound then request else .refused

/-- The request of the arguments of the command line. -/
def ofArguments (arguments : List String) : Request :=
  read true arguments

end Request

end Patchwork
