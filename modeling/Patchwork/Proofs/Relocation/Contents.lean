import Patchwork.Proofs.Relocation.Marks

/-!
# Contents with other marks

Records, headers and converted texts with other marks.  Everything that reads a
record sees the same of it, and whatever is written into a record or put over it
can get its other marks before or after.
-/

namespace Patchwork

namespace Entries

variable {Key Value Key' Value' : Type} [BEq Key] [BEq Key']
variable {rekey : Key → Key'} (change : Value → Value')

/-- The entries with other keys and other values. -/
abbrev convert (rekey : Key → Key') (change : Value → Value') (entries : Entries Key Value) :
    Entries Key' Value' :=
  entries.map (Prod.map rekey change)

theorem get?_convert (hkeys : ∀ key other, (rekey key == rekey other) = (key == other))
    (entries : Entries Key Value) (key : Key) :
    get? (entries.convert rekey change) (rekey key) = (get? entries key).map change := by
  induction entries with
  | nil => rfl
  | cons entry rest ih =>
    obtain ⟨here, value⟩ := entry
    simp only [convert, List.map_cons, Prod.map_apply, get?, hkeys] at ih ⊢
    split
    · rfl
    · exact ih

theorem put_convert (hkeys : ∀ key other, (rekey key == rekey other) = (key == other))
    (entries : Entries Key Value) (key : Key) (value : Value) :
    put (entries.convert rekey change) (rekey key) (change value) =
      (put entries key value).convert rekey change := by
  induction entries with
  | nil => rfl
  | cons entry rest ih =>
    obtain ⟨here, old⟩ := entry
    simp only [convert, List.map_cons, Prod.map_apply, put, hkeys] at ih ⊢
    split
    · rfl
    · rw [ih]
      rfl

theorem get?_convert_id (entries : Entries Key Value) (key : Key) :
    get? (entries.convert id change) key = (get? entries key).map change :=
  get?_convert change (fun _ _ => rfl) entries key

theorem put_convert_id (entries : Entries Key Value) (key : Key) (value : Value) :
    put (entries.convert id change) key (change value) =
      (put entries key value).convert id change :=
  put_convert change (fun _ _ => rfl) entries key value

theorem remove_convert (hkeys : ∀ key other, (rekey key == rekey other) = (key == other))
    (entries : Entries Key Value) (key : Key) :
    remove (entries.convert rekey change) (rekey key) =
      (remove entries key).convert rekey change := by
  induction entries with
  | nil => rfl
  | cons entry rest ih =>
    obtain ⟨here, old⟩ := entry
    simp only [convert, List.map_cons, Prod.map_apply, remove, hkeys] at ih ⊢
    split
    · rfl
    · rw [ih]
      rfl

theorem putAll_convert (hkeys : ∀ key other, (rekey key == rekey other) = (key == other))
    (entries changes : Entries Key Value) :
    putAll (entries.convert rekey change) (changes.convert rekey change) =
      (putAll entries changes).convert rekey change := by
  induction changes generalizing entries with
  | nil => rfl
  | cons entry rest ih =>
    have hput := put_convert change hkeys entries entry.1 entry.2
    have hrest := ih (put entries entry.1 entry.2)
    rw [← hput] at hrest
    exact hrest

end Entries

/-! ## Records -/

namespace Record

variable {mark : Nat → Nat}

/-- The record with other marks in its fields. -/
def remark (mark : Nat → Nat) (record : Record) : Record :=
  { record with fields := record.fields.convert (Plain.remark mark) (Plain.remark mark) }

@[simp]
theorem id_remark (record : Record) : (record.remark mark).id = record.id := rfl

@[simp]
theorem kind_remark (record : Record) : (record.remark mark).kind = record.kind := rfl

@[simp]
theorem name_remark (record : Record) : (record.remark mark).name = record.name := rfl

@[simp]
theorem mod_remark (record : Record) : (record.remark mark).mod = record.mod := rfl

@[simp]
theorem isNew_remark (record : Record) : (record.remark mark).isNew = record.isNew := rfl

@[simp]
theorem links_remark (record : Record) : (record.remark mark).links = record.links := rfl

@[simp]
theorem label_remark (record : Record) : (record.remark mark).label = record.label := rfl

@[simp]
theorem remark_default : (default : Record).remark mark = default := rfl

@[simp]
theorem remark_id (record : Record) : record.remark (fun number => number) = record := by
  have hentries : record.fields.map
      (Prod.map (Plain.remark fun number => number) (Plain.remark fun number => number)) =
        record.fields := by
    refine (List.map_congr_left fun entry _ => ?_).trans (List.map_id _)
    exact Prod.ext (Plain.remark_id entry.1) (Plain.remark_id entry.2)
  simp only [remark, Entries.convert, hentries]

theorem remark_remark (first second : Nat → Nat) (record : Record) :
    (record.remark first).remark second = record.remark (second ∘ first) := by
  have hentry : (Prod.map (Plain.remark second) (Plain.remark second)) ∘
      Prod.map (Plain.remark first) (Plain.remark first) =
        Prod.map (Plain.remark (second ∘ first)) (Plain.remark (second ∘ first)) := by
    funext entry
    exact Prod.ext (Plain.remark_remark first second entry.1)
      (Plain.remark_remark first second entry.2)
  simp only [remark, Entries.convert, List.map_map, hentry]

@[simp]
theorem linkList_remark (record : Record) (category : Option String) :
    (record.remark mark).linkList category = record.linkList category := rfl

@[simp]
theorem hasLink_remark (record : Record) (target : String) (category : Option String)
    (payload : Option (List Int)) :
    (record.remark mark).hasLink target category payload =
      record.hasLink target category payload := rfl

theorem field?_remark (hmark : Function.Injective mark) (record : Record) (name : String) :
    (record.remark mark).field? name = (record.field? name).map (Plain.remark mark) :=
  Entries.get?_convert (Plain.remark mark) (Plain.beq_remark hmark) record.fields (.str name)

theorem hasField_remark (hmark : Function.Injective mark) (record : Record) (name : String) :
    (record.remark mark).hasField name = record.hasField name := by
  rw [hasField, field?_remark hmark, Option.isSome_map, hasField]

theorem fieldIsEmpty_remark (hmark : Function.Injective mark) (record : Record)
    (name : String) : (record.remark mark).fieldIsEmpty name = record.fieldIsEmpty name := by
  rw [fieldIsEmpty, field?_remark hmark, fieldIsEmpty]
  cases record.field? name with
  | none => rfl
  | some value => cases value <;> rfl

theorem isRemoved_remark (hmark : Function.Injective mark) (record : Record) :
    (record.remark mark).isRemoved = record.isRemoved := by
  rw [isRemoved, field?_remark hmark, isRemoved]
  cases record.field? removedField with
  | none => rfl
  | some value => cases value <;> rfl

theorem setField_remark (hmark : Function.Injective mark) (record : Record) (name : String)
    (value : Plain) :
    (record.remark mark).setField name (value.remark mark) =
      (record.setField name value).remark mark := by
  have hput := Entries.put_convert (Plain.remark mark) (Plain.beq_remark hmark)
    record.fields (.str name) value
  rw [Plain.remark_str] at hput
  simp only [setField, remark, hput]

@[simp]
theorem setLink_remark (record : Record) (link : Link) :
    (record.remark mark).setLink link = (record.setLink link).remark mark := rfl

theorem applyChanges_remark (hmark : Function.Injective mark) (record version : Record) :
    (record.remark mark).applyChanges (version.remark mark) =
      (record.applyChanges version).remark mark := by
  have hput := Entries.putAll_convert (Plain.remark mark) (Plain.beq_remark hmark)
    record.fields version.fields
  simp only [applyChanges, remark, hput]
  rfl

end Record

end Patchwork
