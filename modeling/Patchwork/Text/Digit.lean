import Patchwork.Text.Blank

/-!
# Digits

Decimal digits come in runs of ten consecutive code points, one run for each
script.  `decimalValue?` reads one; `isDigit` also accepts the digit-like
characters (superscripts, circled digits) that have no place in a numeral.
-/

namespace Patchwork.Text

/-- The zero of every run of ten decimal digits, in ascending order. -/
def decimalZeros : List Nat :=
  [48, 1632, 1776, 1984, 2406, 2534, 2662, 2790, 2918, 3046, 3174, 3302, 3430, 3558, 3664,
   3792, 3872, 4160, 4240, 6112, 6160, 6470, 6608, 6784, 6800, 6992, 7088, 7232, 7248, 42528,
   43216, 43264, 43472, 43504, 43600, 44016, 65296, 66720, 68912, 69734, 69872, 69942, 70096,
   70384, 70736, 70864, 71248, 71360, 71472, 71904, 72016, 72784, 73040, 73120, 92768, 92864,
   93008, 120782, 120792, 120802, 120812, 120822, 123200, 123632, 125264, 130032]

/-- Ranges of the characters that stand for a digit without being decimal. -/
def digitLikeRanges : CodeRanges :=
  [(178, 179), (185, 185), (4969, 4977), (6618, 6618), (8304, 8304), (8308, 8313), (8320, 8329),
   (9312, 9320), (9332, 9340), (9352, 9360), (9450, 9450), (9461, 9469), (9471, 9471),
   (10102, 10110), (10112, 10120), (10122, 10130), (68160, 68163), (69216, 69224),
   (69714, 69722), (127232, 127242)]

/-- The value of a decimal digit of any script. -/
def decimalValue? (char : Char) : Option Nat :=
  (decimalZeros.find? fun first => first ≤ char.toNat && char.toNat < first + 10).map
    fun first => char.toNat - first

/-- A decimal digit of any script. -/
def isDecimal (char : Char) : Bool :=
  (decimalValue? char).isSome

/-- A decimal digit or a digit-like character. -/
def isDigit (char : Char) : Bool :=
  isDecimal char || digitLikeRanges.contain char.toNat

theorem decimalValue?_lt {char : Char} {value : Nat}
    (hvalue : decimalValue? char = some value) : value < 10 := by
  simp only [decimalValue?, Option.map_eq_some_iff] at hvalue
  obtain ⟨first, hfirst, rfl⟩ := hvalue
  have := List.find?_some hfirst
  simp only [Bool.and_eq_true, decide_eq_true_eq] at this
  omega

theorem isDigit_of_isDecimal {char : Char} (hchar : isDecimal char = true) :
    isDigit char = true := by
  simp [isDigit, hchar]

/-- The ASCII digit of a value below ten. -/
def digitChar (value : Nat) : Char :=
  Char.ofNat (48 + value % 10)

end Patchwork.Text
