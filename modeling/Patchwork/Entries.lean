/-!
# Entries in insertion order

A finite map that remembers the order in which its keys came.  Writing a key
again keeps its place and replaces its value; a new key goes to the end.
-/

namespace Patchwork

/-- Keys with their values, in insertion order. -/
abbrev Entries (Key Value : Type) := List (Key × Value)

namespace Entries

variable {Key Value : Type} [BEq Key]

/-- The value of a key. -/
def get? : Entries Key Value → Key → Option Value
  | [], _ => none
  | (here, value) :: rest, key => if here == key then some value else get? rest key

/-- Whether a key has a value. -/
def has (entries : Entries Key Value) (key : Key) : Bool :=
  (get? entries key).isSome

/-- Gives a key a value. -/
def put : Entries Key Value → Key → Value → Entries Key Value
  | [], key, value => [(key, value)]
  | (here, old) :: rest, key, value =>
    if here == key then (here, value) :: rest else (here, old) :: put rest key value

/-- The entries without a key. -/
def remove : Entries Key Value → Key → Entries Key Value
  | [], _ => []
  | (here, value) :: rest, key =>
    if here == key then rest else (here, value) :: remove rest key

/-- The entries with all of `changes` written over them, one after the other. -/
def putAll (entries changes : Entries Key Value) : Entries Key Value :=
  changes.foldl (fun written change => put written change.1 change.2) entries

/-- The entries of a list of pairs, of which a later one wins. -/
def ofPairs (pairs : List (Key × Value)) : Entries Key Value :=
  putAll [] pairs

@[simp]
theorem get?_nil (key : Key) : get? ([] : Entries Key Value) key = none := rfl

theorem get?_put [EquivBEq Key] (entries : Entries Key Value) (key other : Key)
    (value : Value) :
    get? (put entries key value) other =
      if key == other then some value else get? entries other := by
  induction entries with
  | nil => rfl
  | cons head rest ih =>
    obtain ⟨here, old⟩ := head
    simp only [put]
    by_cases hhere : (here == key) = true
    · have hcongr : (here == other) = (key == other) := BEq.congr_left hhere
      by_cases hother : (key == other) = true <;>
        simp [get?, hhere, hcongr, hother]
    · by_cases hother : (here == other) = true
      · have hcongr : (key == other) = false := by
          rw [← BEq.congr_right hother, BEq.comm]
          simpa using hhere
        simp [get?, hhere, hother, hcongr]
      · simp [get?, hhere, hother, ih]

@[simp]
theorem get?_put_self [EquivBEq Key] (entries : Entries Key Value) (key : Key)
    (value : Value) : get? (put entries key value) key = some value := by
  simp [get?_put]

theorem keys_put (entries : Entries Key Value) (key : Key) (value : Value) :
    (put entries key value).map Prod.fst =
      if has entries key then entries.map Prod.fst else entries.map Prod.fst ++ [key] := by
  induction entries with
  | nil => rfl
  | cons head rest ih =>
    obtain ⟨here, old⟩ := head
    by_cases hhere : (here == key) = true
    · simp [put, has, get?, hhere]
    · simp only [has] at ih
      by_cases hrest : (get? rest key).isSome = true <;>
        simp [put, has, get?, hhere, ih, hrest]

end Entries

end Patchwork
