/-!
# Lines

Text files are read with every line end made a line feed and a byte order mark
at the front dropped.  A text is then cut at every line boundary, of which the
line feed is one among several.
-/

namespace Patchwork.Text

/-- The characters with each carriage return, alone or before a line feed,
replaced by one line feed. -/
def unifyLineEnds : List Char → List Char
  | [] => []
  | '\r' :: '\n' :: rest => '\n' :: unifyLineEnds rest
  | '\r' :: rest => '\n' :: unifyLineEnds rest
  | char :: rest => char :: unifyLineEnds rest

/-- The characters without a byte order mark at the front. -/
def dropByteOrderMark : List Char → List Char
  | [] => []
  | first :: rest => if first.toNat == 0xFEFF then rest else first :: rest

/-- A character that ends a line. -/
def isLineEnd (char : Char) : Bool :=
  let code := char.toNat
  (10 ≤ code && code ≤ 13) || (28 ≤ code && code ≤ 30) ||
    code == 0x85 || code == 0x2028 || code == 0x2029

/-- The lines of a text without their ends; a carriage return and a line feed
together are one end, and nothing after the last end is no line. -/
def lines : List Char → List (List Char)
  | [] => []
  | '\r' :: '\n' :: rest => [] :: lines rest
  | char :: rest =>
    if isLineEnd char then [] :: lines rest
    else
      match lines rest with
      | [] => [[char]]
      | first :: others => (char :: first) :: others

/-- The lines of a text. -/
def linesOf (text : String) : List String :=
  (lines text.toList).map String.ofList

/-- The lines of a script file. -/
def scriptLines (content : String) : List String :=
  (lines (unifyLineEnds (dropByteOrderMark content.toList))).map String.ofList

end Patchwork.Text
