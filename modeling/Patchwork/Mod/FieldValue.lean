import Patchwork.Expression.Coercion

/-!
# Field values

A script writes texts into fields.  A text is converted to the type the field
has, or to the type the script declares; a text that does not convert is not
stored.
-/

namespace Patchwork

namespace FieldType

/-- The type of a field value, if it has one. -/
def of? : Plain → Option FieldType
  | .null => none
  | .bool _ => some .bool
  | .int _ => some .int
  | .float _ => some .float
  | .str _ => some .text
  | .list _ => some .list
  | .mapping _ => some .mapping

/-- The type with a declared name; case and blanks around it do not matter. -/
def declared? (name : String) : Option FieldType :=
  (declaredTypes.find? fun entry => entry.1 == Text.lowerCase (Text.trim name)).map Prod.snd

/-- The flag a text stands for. -/
def flagOfText? (text : String) : Option Bool :=
  let word := Text.lowerCase (Text.trim text)
  if word == "true" || word == "1" then some true
  else if word == "false" || word == "0" then some false
  else none

/-- The integer a text stands for; a text that reads as a floating-point number
stands for the nearest integer. -/
def integerOfText (text : String) : Except Fault Int :=
  match integerOfText? text, floatOfText? text with
  | some number, _ => .ok number
  | none, some number =>
    match roundToInteger number with
    | .ok whole => .ok whole
    | .error .nanToInteger => .error (.store (.unstorable text .int))
    | .error fault => .error (.number fault)
  | none, none => .error (.store (.unstorable text .int))

/-- The field value of a type that a text stands for. -/
def convert (type : FieldType) (text : String) : Except Fault Plain :=
  match type with
  | .text => .ok (.str text)
  | .bool =>
    match flagOfText? text with
    | some flag => .ok (.bool flag)
    | none => .error (.store (.unstorable text .bool))
  | .int => (integerOfText text).map .int
  | .float =>
    match floatOfText? text with
    | some number => .ok (.float number)
    | none => .error (.store (.unstorable text .float))
  | .list => .error (.store (.unsupportedType .list))
  | .mapping => .error (.store (.unsupportedType .mapping))

@[simp]
theorem convert_text (text : String) : convert .text text = .ok (.str text) := rfl

end FieldType

end Patchwork
