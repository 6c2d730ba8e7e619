import Patchwork.Entries
import Patchwork.Number.Shortest
import Patchwork.Text.Quoted
import Patchwork.Text.Search

/-!
# Plain values

The values of record fields and of documents: nothing, truth values, numbers,
texts, lists and mappings.  Numbers of the two kinds and truth values count as
the same key of a mapping when they are equal as numbers.
-/

namespace Patchwork

/-- A value without behaviour. -/
inductive Plain
  | null
  | bool (flag : Bool)
  | int (number : Int)
  | float (number : Binary64)
  | str (text : String)
  | list (items : List Plain)
  | mapping (entries : List (Plain × Plain))
  deriving Inhabited

namespace Plain

/-- What a scalar is compared by: truth values and whole numbers are compared
as integers. -/
inductive Scalar
  | null
  | text (text : String)
  | whole (number : Int)
  | fraction (number : Binary64)
  deriving DecidableEq

/-- The scalar a value is compared by; lists and mappings have none. -/
def scalar? : Plain → Option Scalar
  | .null => some .null
  | .bool flag => some (.whole (if flag then 1 else 0))
  | .int number => some (.whole number)
  | .float number =>
    match number.isWhole, number.truncate? with
    | true, some whole => some (.whole whole)
    | _, _ => some (.fraction number)
  | .str text => some (.text text)
  | .list _ => none
  | .mapping _ => none

mutual

/-- Equal values: scalars by what they are compared by, lists element by
element, and mappings whatever the order of their keys. -/
def same : Plain → Plain → Bool
  | .list left, .list right => sameItems left right
  | .mapping left, .mapping right => left.length == right.length && sameEntries left right
  | left, right =>
    match left.scalar?, right.scalar? with
    | some leftScalar, some rightScalar => leftScalar == rightScalar
    | _, _ => false

/-- Equal elements in the same order. -/
def sameItems : List Plain → List Plain → Bool
  | [], [] => true
  | left :: leftRest, right :: rightRest => same left right && sameItems leftRest rightRest
  | _, _ => false

/-- Every entry on the left has an equal one on the right. -/
def sameEntries : List (Plain × Plain) → List (Plain × Plain) → Bool
  | [], _ => true
  | (key, value) :: rest, right =>
    (match right.find? fun entry => entry.1.scalar? == key.scalar? with
      | some entry => same value entry.2
      | none => false) && sameEntries rest right

end

instance : BEq Plain := ⟨same⟩

/-- Whether two values are equal as values.  A number that is not one is then
not even equal to itself, though it is found in a list that holds it. -/
def equals (left right : Plain) : Bool :=
  match left with
  | .float number => !number.isNan && left == right
  | _ => left == right

/-- The mapping with the given pairs, of which a later one wins. -/
def ofPairs (pairs : List (Plain × Plain)) : Plain :=
  .mapping (Entries.ofPairs pairs)

/-- The value of a text key of a mapping. -/
def get? (entries : List (Plain × Plain)) (key : String) : Option Plain :=
  Entries.get? entries (.str key)

mutual

/-- A value as it is when it has been written into a document and read again:
the numbers that are not one are all the same, and so are keys that differed in
nothing else. -/
def asRead : Plain → Plain
  | .float (.nan _) => .float (.nan Binary64.documentMark)
  | .list items => .list (itemsAsRead items)
  | .mapping entries => .ofPairs (entriesAsRead entries)
  | value => value

/-- The elements of a list as they are read again. -/
def itemsAsRead : List Plain → List Plain
  | [] => []
  | item :: rest => asRead item :: itemsAsRead rest

/-- The entries of a mapping as they are read again. -/
def entriesAsRead : List (Plain × Plain) → List (Plain × Plain)
  | [] => []
  | (key, value) :: rest => (asRead key, asRead value) :: entriesAsRead rest

end

/-- The name of a value's kind as messages give it. -/
def kindName : Plain → String
  | .null => "NoneType"
  | .bool _ => "bool"
  | .int _ => "int"
  | .float _ => "float"
  | .str _ => "str"
  | .list _ => "list"
  | .mapping _ => "dict"

/-- Whether a value stands for something: not nothing, not zero, not empty. -/
def isFilled : Plain → Bool
  | .null => false
  | .bool flag => flag
  | .int number => number != 0
  | .float number => !number.isZero
  | .str text => text != ""
  | .list items => !items.isEmpty
  | .mapping entries => !entries.isEmpty

mutual

/-- The text of a value inside another one: texts are quoted. -/
def innerText : Plain → String
  | .null => "None"
  | .bool flag => if flag then "True" else "False"
  | .int number => integerText number
  | .float number => Shortest.text number
  | .str text => Text.quoted text
  | .list items => "[" ++ Text.joined ", " (itemTexts items) ++ "]"
  | .mapping entries => "\x7b" ++ Text.joined ", " (entryTexts entries) ++ "\x7d"

/-- The texts of the elements of a list. -/
def itemTexts : List Plain → List String
  | [] => []
  | item :: rest => innerText item :: itemTexts rest

/-- The texts of the entries of a mapping. -/
def entryTexts : List (Plain × Plain) → List String
  | [] => []
  | (key, value) :: rest => (innerText key ++ ": " ++ innerText value) :: entryTexts rest

end

/-- The text of a value on its own: a text is written as it is. -/
def text : Plain → String
  | .str text => text
  | value => innerText value

@[simp]
theorem beq_str (left right : String) :
    (Plain.str left == Plain.str right) = decide (left = right) := by
  simp [BEq.beq, same, scalar?]

@[simp]
theorem equals_str (name : String) (value : Plain) :
    (Plain.str name).equals value = (Plain.str name == value) := rfl

end Plain

end Patchwork
