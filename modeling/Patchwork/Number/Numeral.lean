import Patchwork.Text.Digit
import Patchwork.Number.Decimal

/-!
# Numerals

How texts are read as numbers.  Blanks around a numeral are ignored, decimal
digits of every script count, single underscores may stand between digits, and
a sign may stand in front.  A decimal numeral may have a point, an exponent, or
be one of the words `inf`, `infinity` and `nan` in any case.
-/

namespace Patchwork.Numeral

/-- A blank that may surround a numeral: any white space but the information
separators U+001C to U+001F. -/
def isPadding (char : Char) : Bool :=
  Text.isBlank char && !(28 ≤ char.toNat && char.toNat ≤ 31)

/-- The characters without the padding at both ends, with every decimal digit
made an ASCII one. -/
def plainChars (text : String) : List Char :=
  let front := text.toList.dropWhile isPadding
  ((front.reverse.dropWhile isPadding).reverse).map fun char =>
    match Text.decimalValue? char with
    | some value => Text.digitChar value
    | none => char

/-- A sign in front and the characters after it. -/
def splitSign : List Char → Bool × List Char
  | '-' :: rest => (true, rest)
  | '+' :: rest => (false, rest)
  | rest => (false, rest)

/-- The characters without underscores, each of which has to stand between two
digits.  `afterDigit` tells whether the character before is a digit. -/
def withoutUnderscores (afterDigit : Bool) : List Char → Option (List Char)
  | [] => some []
  | '_' :: next :: rest =>
    if afterDigit && next.isDigit then
      (withoutUnderscores true rest).map (next :: ·)
    else none
  | '_' :: [] => none
  | char :: rest => (withoutUnderscores char.isDigit rest).map (char :: ·)

/-- The value of ASCII digits; there has to be one at least. -/
def natural? (digits : List Char) : Option Nat :=
  if digits.isEmpty || !digits.all Char.isDigit then none
  else some (Nat.ofDigitChars 10 digits 0)

/-- The value of an integer numeral. -/
def integer? (text : String) : Option Int :=
  let (negative, body) := splitSign (plainChars text)
  match (withoutUnderscores false body).bind natural? with
  | some number => some (if negative then -(number : Int) else number)
  | none => none

/-- The value of an exponent, nothing at all included. -/
def exponent? : List Char → Option Int
  | [] => some 0
  | mark :: rest =>
    if mark == 'e' || mark == 'E' then
      let (negative, digits) := splitSign rest
      (natural? digits).map fun number => if negative then -(number : Int) else number
    else none

/-- The decimal of digits with at most one point among them and an exponent
after them. -/
def decimal? (body : List Char) : Option Decimal :=
  let whole := body.takeWhile Char.isDigit
  let afterWhole := body.dropWhile Char.isDigit
  let (fraction, afterFraction) :=
    match afterWhole with
    | '.' :: rest => (rest.takeWhile Char.isDigit, rest.dropWhile Char.isDigit)
    | rest => ([], rest)
  match natural? (whole ++ fraction), exponent? afterFraction with
  | some digits, some exponent => some ⟨digits, exponent - fraction.length⟩
  | _, _ => none

/-- The value of a decimal numeral. -/
def float? (text : String) : Option Binary64 :=
  let (negative, body) := splitSign (plainChars text)
  let word := String.ofList (body.map Char.toLower)
  if word == "inf" || word == "infinity" then some (.infinite negative)
  else if word == "nan" then some (.nan 0)
  else ((withoutUnderscores false body).bind decimal?).map (Decimal.toBinary64 negative)

end Patchwork.Numeral
