import Patchwork.Mod.FieldValue
import Patchwork.Proofs.Results
import Patchwork.Proofs.Text.Numerals

/-!
# Texts made field values

A text either becomes a value of the type it is converted to or is refused, with one
exception: the numeral of an infinite number does not become an integer, and the fault is
then about the number.  The text an integer, a truth value or a string is shown as becomes
that value again.
-/

namespace Patchwork

namespace FieldType

/-- A text that is no integer numeral but that of an infinite number. -/
structure IsInfinite (text : String) : Prop where
  noInteger : integerOfText? text = none
  infinite : ∃ negative, floatOfText? text = some (.infinite negative)

/-- The faults that a text may lead to which is to be converted to a type. -/
inductive ConversionFault (type : FieldType) (text : String) : Fault → Prop
  | refused (cause : StoreFault) : ConversionFault type text (.store cause)
  | overflow (htype : type = .int) (htext : IsInfinite text) :
    ConversionFault type text (.number .infinityToInteger)

/-! ## What a conversion gives -/

theorem ends_integerOfText (text : String) :
    Ends (fun _ => True) (ConversionFault .int text) (integerOfText text) := by
  unfold integerOfText
  split
  · exact .ok trivial
  · rename_i number hinteger hfloat
    cases number with
    | finite negative units fits => exact .ok trivial
    | nan mark => exact .error (.refused _)
    | infinite negative => exact .error (.overflow rfl ⟨hinteger, negative, hfloat⟩)
  · exact .error (.refused _)

theorem convert_int (text : String) : convert .int text = (integerOfText text).map .int := by
  unfold convert
  dsimp only

/-- A conversion gives a value of its very type. -/
theorem ends_convert (type : FieldType) (text : String) :
    Ends (fun value => of? value = some type) (ConversionFault type text) (type.convert text) := by
  cases type with
  | text => exact .ok rfl
  | bool =>
    unfold convert
    dsimp only
    split
    · exact .ok rfl
    · exact .error (.refused _)
  | int =>
    rw [convert_int]
    exact (ends_integerOfText text).map fun _ _ => rfl
  | float =>
    unfold convert
    dsimp only
    split
    · exact .ok rfl
    · exact .error (.refused _)
  | list | mapping => exact .error (.refused _)

/-- There is no integer next to an infinite number. -/
theorem convert_int_of_isInfinite {text : String} (htext : IsInfinite text) :
    convert .int text = .error (.number .infinityToInteger) := by
  obtain ⟨negative, hfloat⟩ := htext.infinite
  have hfails : integerOfText text = .error (.number .infinityToInteger) := by
    rw [integerOfText, htext.noInteger, hfloat]
    rfl
  rw [convert_int, hfails]
  rfl

/-! ## What is shown and converted again -/

theorem convert_display_integer (labels : Labels) (number : Int) :
    convert .int ((Value.integer number).display labels) = .ok (.int number) := by
  have hread : integerOfText? (integerText number) = some number := by
    rw [integerOfText?, trim_integerText, Numeral.integer?_integerText]
  have hgives : integerOfText (integerText number) = .ok number := by
    rw [integerOfText, hread]
  rw [Value.display, convert_int, hgives]
  rfl

theorem convert_display_boolean (labels : Labels) (flag : Bool) :
    convert .bool ((Value.boolean flag).display labels) = .ok (.bool flag) := by
  rw [Value.display]
  cases flag with
  | true => rfl
  | false => rfl

theorem convert_display_string (labels : Labels) (text : String) :
    convert .text ((Value.string text).display labels) = .ok (.str text) := by
  rw [Value.display, convert_text]

end FieldType

end Patchwork
