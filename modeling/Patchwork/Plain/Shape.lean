import Patchwork.Fault
import Patchwork.Number.Numeral
import Patchwork.Plain

/-!
# The shapes of plain values

A document is taken apart by asking its values for what they should be: a list
of things to go through, a mapping, an integer.  A value that is not filled
counts as empty.  Texts and mappings can be gone through as well, character by
character and key by key.
-/

namespace Patchwork

/-- Why a value cannot be used where it stands. -/
inductive ShapeFault
  /-- There is nothing in the value to go through. -/
  | notListed (kind : String)
  /-- The value has no entries. -/
  | notMapping (kind : String)
  /-- The value is not a text. -/
  | notText (kind : String)
  /-- The value is not a suffix. -/
  | notSuffix (kind : String)
  /-- The value is not a number. -/
  | notNumber (kind : String)
  /-- The text is no integer. -/
  | notInteger (text : String)
  /-- The number has no integer part. -/
  | number (fault : NumberFault)
  /-- The value at a position is no pair. -/
  | notPair (position : Nat) (kind : String)
  /-- The value at a position has too many elements for a pair, or too few. -/
  | unevenPair (position size : Nat)
  /-- The value cannot be a key. -/
  | notKey (kind : String)
  deriving DecidableEq, Repr

namespace ShapeFault

/-- The text of the error. -/
def message : ShapeFault → String
  | notListed kind => "Cannot go through " ++ kind
  | notMapping kind => "Expected a mapping, got " ++ kind
  | notText kind => "Expected a text, got " ++ kind
  | notSuffix kind => "Expected a suffix, got " ++ kind
  | notNumber kind => "Expected a number, got " ++ kind
  | notInteger text => ScanFault.notIntegerMessage text
  | number fault => fault.message
  | notPair position kind =>
    "Expected a pair at position " ++ integerText position ++ ", got " ++ kind
  | unevenPair position size =>
    "dictionary update sequence element #" ++ integerText position ++ " has length " ++
      integerText size ++ "; 2 is required"
  | notKey kind => "Cannot use " ++ kind ++ " as a key"

end ShapeFault

namespace Plain

/-- What can be gone through in a value: the elements of a list, the characters
of a text, the keys of a mapping. -/
def elements? : Plain → Option (List Plain)
  | .list items => some items
  | .str text => some (text.toList.map fun char => .str (String.singleton char))
  | .mapping entries => some (entries.map Prod.fst)
  | _ => none

/-- What can be gone through in a value that should be there if it is filled. -/
def listing (value : Plain) : Except ShapeFault (List Plain) :=
  if !value.isFilled then .ok []
  else
    match value.elements? with
    | some elements => .ok elements
    | none => .error (.notListed value.kindName)

/-- The entries of a value that should be a mapping if it is filled. -/
def entries (value : Plain) : Except ShapeFault (Entries Plain Plain) :=
  if !value.isFilled then .ok []
  else
    match value with
    | .mapping entries => .ok entries
    | other => .error (.notMapping other.kindName)

/-- Whether a value can be a key of a mapping. -/
def isKey (value : Plain) : Bool :=
  value.scalar?.isSome

/-- The pair a value at a position stands for: it has two elements, the first of
which can be a key. -/
def pair (position : Nat) (value : Plain) : Except ShapeFault (Plain × Plain) :=
  match value.elements? with
  | some [key, content] =>
    if key.isKey then .ok (key, content) else .error (.notKey key.kindName)
  | some elements => .error (.unevenPair position elements.length)
  | none => .error (.notPair position value.kindName)

/-- The entries made of pairs, the first of which is at a position. -/
def pairs (position : Nat) : List Plain → Except ShapeFault (List (Plain × Plain))
  | [] => .ok []
  | value :: rest => do
    let first ← pair position value
    let others ← pairs (position + 1) rest
    return first :: others

/-- The entries of a value that should be a mapping, or a list of pairs, if it is
filled. -/
def entriesOrPairs (value : Plain) : Except ShapeFault (Entries Plain Plain) :=
  match value with
  | .mapping entries => .ok entries
  | other => do
    let elements ← other.listing
    return Entries.ofPairs (← pairs 0 elements)

/-- The integer a value stands for: the integer part of a number, or an integer
numeral. -/
def integer : Plain → Except ShapeFault Int
  | .bool flag => .ok (if flag then 1 else 0)
  | .int number => .ok number
  | .float (.nan _) => .error (.number .nanToInteger)
  | .float number =>
    match number.truncate? with
    | some whole => .ok whole
    | none => .error (.number .infinityToInteger)
  | .str text =>
    match Numeral.integer? text with
    | some number => .ok number
    | none => .error (.notInteger text)
  | other => .error (.notNumber other.kindName)

@[simp]
theorem listing_list (items : List Plain) : listing (.list items) = .ok items := by
  cases items <;> simp [listing, isFilled, elements?]

@[simp]
theorem entries_mapping (content : Entries Plain Plain) :
    entries (.mapping content) = .ok content := by
  cases content <;> simp [entries, isFilled]

@[simp]
theorem entriesOrPairs_mapping (content : Entries Plain Plain) :
    entriesOrPairs (.mapping content) = .ok content := rfl

end Plain

end Patchwork
