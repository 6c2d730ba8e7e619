import Patchwork.Number.Numeral
import Patchwork.Plain

/-!
# The written form of plain values

Lists stand in brackets, mappings in braces and texts in double quotes, with
commas between elements and a colon after a key.  Numbers are written so that
reading gives the same number again.
-/

namespace Patchwork.Plain

/-! ## Writing -/

/-- A character inside quotes. -/
def escaped (char : Char) : List Char :=
  let code := char.toNat
  if char == '"' then ['\\', '"']
  else if char == '\\' then ['\\', '\\']
  else if char == '\n' then ['\\', 'n']
  else if code < 32 then '\\' :: 'u' :: Text.hexDigits 4 code
  else [char]

/-- A text in quotes. -/
def inQuotes (text : String) : String :=
  "\"" ++ String.ofList (text.toList.flatMap escaped) ++ "\""

/-- A floating-point number; those that are not finite have a point in front. -/
def writtenFloat : Binary64 → String
  | .infinite negative => if negative then "-.inf" else ".inf"
  | .nan _ => ".nan"
  | number => Shortest.text number

mutual

/-- The written form of a value. -/
def written : Plain → String
  | .null => "null"
  | .bool flag => if flag then "true" else "false"
  | .int number => integerText number
  | .float number => writtenFloat number
  | .str text => inQuotes text
  | .list items => "[" ++ Text.joined ", " (writtenItems items) ++ "]"
  | .mapping entries => "\x7b" ++ Text.joined ", " (writtenEntries entries) ++ "\x7d"

/-- The written forms of the elements of a list. -/
def writtenItems : List Plain → List String
  | [] => []
  | item :: rest => written item :: writtenItems rest

/-- The written forms of the entries of a mapping. -/
def writtenEntries : List (Plain × Plain) → List String
  | [] => []
  | (key, value) :: rest => (written key ++ ": " ++ written value) :: writtenEntries rest

end

/-! ## Reading -/

/-- The value of a hexadecimal digit. -/
def hexValue? (char : Char) : Option Nat :=
  ("0123456789abcdef".toList.idxOf? char.toLower)

/-- The character of four hexadecimal digits. -/
def charOfHex? (digits : List Char) : Option Char := do
  let values ← digits.mapM hexValue?
  let code := values.foldl (fun code value => code * 16 + value) 0
  if code.isValidChar then some (Char.ofNat code) else none

/-- The character an escaped letter stands for. -/
def unescaped? : Char → Option Char
  | '"' => some '"'
  | '\\' => some '\\'
  | '/' => some '/'
  | 'n' => some '\n'
  | 't' => some '\t'
  | 'r' => some '\r'
  | 'b' => some (Char.ofNat 8)
  | 'f' => some (Char.ofNat 12)
  | _ => none

/-- The characters up to the closing quote, and what comes after it. -/
def quotedRest? : List Char → Option (List Char × List Char)
  | [] => none
  | '"' :: rest => some ([], rest)
  | '\\' :: 'u' :: first :: second :: third :: fourth :: rest => do
    let char ← charOfHex? [first, second, third, fourth]
    let (chars, after) ← quotedRest? rest
    return (char :: chars, after)
  | '\\' :: letter :: rest => do
    let char ← unescaped? letter
    let (chars, after) ← quotedRest? rest
    return (char :: chars, after)
  | char :: rest => do
    let (chars, after) ← quotedRest? rest
    return (char :: chars, after)

/-- A character of a word: of a number or of a name such as `null`. -/
def isWordPart (char : Char) : Bool :=
  char.isAlphanum || char == '+' || char == '-' || char == '.'

/-- The value a word stands for. -/
def ofWord? (word : List Char) : Option Plain :=
  match String.ofList word with
  | "null" => some .null
  | "true" => some (.bool true)
  | "false" => some (.bool false)
  | ".inf" => some (.float (.infinite false))
  | "-.inf" => some (.float (.infinite true))
  | ".nan" => some (.float (.nan 0))
  | text =>
    if !word.any Char.isDigit then none
    else
      match Numeral.integer? text with
      | some number => some (.int number)
      | none => (Numeral.float? text).map .float

/-- The characters from the first one that is no blank on. -/
def skipBlanks (chars : List Char) : List Char :=
  chars.dropWhile Char.isWhitespace

mutual

/-- The value in front and what comes after it; `budget` bounds the values. -/
def readValue : (budget : Nat) → List Char → Option (Plain × List Char)
  | 0, _ => none
  | budget + 1, chars =>
    match skipBlanks chars with
    | '"' :: rest => (quotedRest? rest).map fun (text, after) => (.str (String.ofList text), after)
    | '[' :: rest =>
      match skipBlanks rest with
      | ']' :: after => some (.list [], after)
      | rest => (readItems budget rest).map fun (items, after) => (.list items, after)
    | '\x7b' :: rest =>
      match skipBlanks rest with
      | '\x7d' :: after => some (.mapping [], after)
      | rest => (readEntries budget rest).map fun (pairs, after) => (.ofPairs pairs, after)
    | rest =>
      (ofWord? (rest.takeWhile isWordPart)).map fun value => (value, rest.dropWhile isWordPart)

/-- The elements of a list, of which there is one at least, up to its end. -/
def readItems : (budget : Nat) → List Char → Option (List Plain × List Char)
  | 0, _ => none
  | budget + 1, chars => do
    let (item, rest) ← readValue budget chars
    match skipBlanks rest with
    | ',' :: rest =>
      let (items, after) ← readItems budget rest
      return (item :: items, after)
    | ']' :: after => return ([item], after)
    | _ => none

/-- The entries of a mapping, of which there is one at least, up to its end. -/
def readEntries : (budget : Nat) → List Char → Option (List (Plain × Plain) × List Char)
  | 0, _ => none
  | budget + 1, chars => do
    let (key, rest) ← readValue budget chars
    match skipBlanks rest with
    | ':' :: rest =>
      let (value, rest) ← readValue budget rest
      match skipBlanks rest with
      | ',' :: rest =>
        let (entries, after) ← readEntries budget rest
        return ((key, value) :: entries, after)
      | '\x7d' :: after => return ([(key, value)], after)
      | _ => none
    | _ => none

end

/-- The value a text is the written form of. -/
def ofWritten? (text : String) : Option Plain :=
  let chars := text.toList
  match readValue (chars.length + 1) chars with
  | some (value, rest) => if (skipBlanks rest).isEmpty then some value else none
  | none => none

end Patchwork.Plain
