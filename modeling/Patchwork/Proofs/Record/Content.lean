import Patchwork.Record
import Patchwork.Proofs.Entries

/-!
# The content of records

A record holds a name, a map of fields and a map of links.  This file says what
the operations on records do to these maps: what is looked up after a field or a
link is written, and after the changes of another version are applied.
-/

namespace Patchwork

/-- What the last element of a list that has something has. -/
def lastSome? {Item Value : Type} (read : Item → Option Value) (items : List Item) :
    Option Value :=
  items.reverse.findSome? read

@[simp]
theorem lastSome?_nil {Item Value : Type} (read : Item → Option Value) :
    lastSome? read [] = none := rfl

theorem lastSome?_cons {Item Value : Type} (read : Item → Option Value) (first : Item)
    (rest : List Item) :
    lastSome? read (first :: rest) = (lastSome? read rest).or (read first) := by
  simp only [lastSome?, List.reverse_cons, List.findSome?_append]
  congr 1
  cases h : read first <;> simp [h]

namespace Record

/-! ## Links -/

/-- The payload of one link in a map of links. -/
def payloadIn (links : Links) (category target : String) : Option (List Int) :=
  (links.get? category).bind (·.get? target)

theorem payload?_eq (record : Record) (category target : String) :
    record.payload? category target = payloadIn record.links category target := rfl

theorem payloadIn_putLink (links : Links) (link : Link) (category target : String) :
    payloadIn (putLink links link) category target =
      if link.category = category ∧ link.target = target then some link.payload
      else payloadIn links category target := by
  simp only [payloadIn, putLink, Entries.get?_put]
  by_cases hcategory : link.category = category
  · subst hcategory
    by_cases htarget : link.target = target
    · simp [htarget]
    · cases links.get? link.category <;> simp [htarget, Entries.get?_put]
  · simp [hcategory]

/-- The links of one category written one after the other. -/
theorem payloadIn_foldl_targets (links : Links) (here : String)
    {targets : Entries String (List Int)} (hdistinct : targets.Distinct)
    (category target : String) :
    payloadIn ((targets.map fun (target, payload) =>
        Link.mk here target payload).foldl putLink links) category target =
      if here = category then
        (targets.get? target).or (payloadIn links category target)
      else payloadIn links category target := by
  induction targets generalizing links with
  | nil => simp
  | cons entry rest ih =>
    obtain ⟨first, payload⟩ := entry
    simp only [List.map_cons, List.foldl_cons]
    rw [ih _ hdistinct.tail, payloadIn_putLink]
    by_cases hhere : here = category
    · by_cases hfirst : first = target
      · subst hfirst
        have hnone := Entries.get?_eq_none_of_distinct
          (Entries.sharp_of_lawful first) hdistinct (beq_self_eq_true first)
        simp [hhere, Entries.get?, hnone]
      · simp [hhere, Entries.get?, hfirst]
    · simp [hhere]

/-- All links of a map written one after the other. -/
theorem payloadIn_foldl_links (links : Links) {changes : Links}
    (hdistinct : changes.Distinct)
    (htargets : ∀ entry ∈ changes, entry.2.Distinct) (category target : String) :
    payloadIn ((changes.flatMap fun (here, targets) => targets.map fun (target, payload) =>
        Link.mk here target payload).foldl putLink links) category target =
      (payloadIn changes category target).or (payloadIn links category target) := by
  induction changes generalizing links with
  | nil => simp [payloadIn]
  | cons entry rest ih =>
    obtain ⟨here, targets⟩ := entry
    simp only [List.flatMap_cons, List.foldl_append]
    rw [ih _ hdistinct.tail fun entry hentry => htargets entry (List.mem_cons_of_mem _ hentry),
      payloadIn_foldl_targets _ _ (htargets (here, targets) List.mem_cons_self)]
    by_cases hhere : here = category
    · subst hhere
      have hnone := Entries.get?_eq_none_of_distinct
        (Entries.sharp_of_lawful here) hdistinct (beq_self_eq_true here)
      simp [payloadIn, Entries.get?, hnone]
    · simp [payloadIn, Entries.get?, hhere]

/-! ## Records whose maps are maps -/

/-- No field, no category and no target of a category stands in a record
twice. -/
structure Tidy (record : Record) : Prop where
  fields : record.fields.Distinct
  links : record.links.Distinct
  targets : ∀ entry ∈ record.links, entry.2.Distinct

instance (record : Record) : Decidable record.Tidy :=
  decidable_of_iff
    (record.fields.Distinct ∧ record.links.Distinct ∧ ∀ entry ∈ record.links, entry.2.Distinct)
    ⟨fun ⟨hfields, hlinks, htargets⟩ => ⟨hfields, hlinks, htargets⟩,
      fun htidy => ⟨htidy.fields, htidy.links, htidy.targets⟩⟩

theorem tidy_of_empty {record : Record} (hfields : record.fields = [])
    (hlinks : record.links = []) : record.Tidy where
  fields := by
    rw [hfields]
    exact List.Pairwise.nil
  links := by
    rw [hlinks]
    exact List.Pairwise.nil
  targets := by
    rw [hlinks]
    intro entry hentry
    cases hentry

theorem Tidy.setField {record : Record} (htidy : record.Tidy) (name : String)
    (value : Plain) : (record.setField name value).Tidy where
  fields := Entries.distinct_put htidy.fields _ _
  links := htidy.links
  targets := htidy.targets

theorem distinct_targets {links : Links} (htargets : ∀ entry ∈ links, entry.2.Distinct)
    (category : String) : ((links.get? category).getD []).Distinct := by
  cases hget : links.get? category with
  | none => exact List.Pairwise.nil
  | some targets =>
    obtain ⟨here, hmem⟩ := Entries.mem_of_get? hget
    exact htargets (here, targets) hmem

theorem Tidy.setLink {record : Record} (htidy : record.Tidy) (link : Link) :
    (record.setLink link).Tidy where
  fields := htidy.fields
  links := Entries.distinct_put htidy.links _ _
  targets := by
    intro entry hentry
    obtain hold | hnew := Entries.mem_put hentry
    · exact htidy.targets entry hold
    · rw [hnew]
      exact Entries.distinct_put (distinct_targets htidy.targets _) _ _

/-! ## Versions applied to a record -/

/-- The name of a record unless it is empty. -/
def givenName? (record : Record) : Option String :=
  if record.name = "" then none else some record.name

theorem givenName?_getD (record : Record) : record.givenName?.getD "" = record.name := by
  simp only [givenName?]
  split
  · next hempty => simp [hempty]
  · rfl

theorem givenName?_applyChanges (record version : Record) :
    (record.applyChanges version).givenName? =
      version.givenName?.or record.givenName? := by
  by_cases hempty : version.name = "" <;> simp [givenName?, applyChanges, hempty]

theorem get?_fields_applyChanges {key : Plain} (hkey : key.IsKey) (record : Record)
    {version : Record} (htidy : version.Tidy) :
    (record.applyChanges version).fields.get? key =
      (version.fields.get? key).or (record.fields.get? key) :=
  Entries.get?_putAll hkey.sharp record.fields htidy.fields

theorem payload?_applyChanges (category target : String) (record : Record)
    {version : Record} (htidy : version.Tidy) :
    (record.applyChanges version).payload? category target =
      (version.payload? category target).or (record.payload? category target) := by
  have hlinks := payloadIn_foldl_links record.links htidy.links htidy.targets category target
  simpa [payload?_eq, applyChanges, linkList] using hlinks

@[simp]
theorem id_applyChanges (record version : Record) :
    (record.applyChanges version).id = record.id := rfl

@[simp]
theorem kind_applyChanges (record version : Record) :
    (record.applyChanges version).kind = record.kind := rfl

@[simp]
theorem isNew_applyChanges (record version : Record) :
    (record.applyChanges version).isNew = record.isNew := rfl

/-- Whatever each version overrides for itself: after versions have been applied
one after the other, the last one that has something is what counts. -/
theorem read_foldl_applyChanges {Value : Type} (read : Record → Option Value)
    (hread : ∀ record version : Record, version.Tidy →
      read (record.applyChanges version) = (read version).or (read record))
    (record : Record) {versions : List Record} (htidy : ∀ version ∈ versions, version.Tidy) :
    read (versions.foldl applyChanges record) = lastSome? read (record :: versions) := by
  induction versions generalizing record with
  | nil => simp [lastSome?_cons]
  | cons version rest ih =>
    have hrest := fun other hother => htidy other (List.mem_cons_of_mem version hother)
    rw [List.foldl_cons, ih _ hrest, lastSome?_cons, lastSome?_cons, lastSome?_cons,
      hread _ _ (htidy version List.mem_cons_self), Option.or_assoc]

theorem foldl_applyChanges_keeps {Value : Type} (read : Record → Value)
    (hread : ∀ record version : Record, read (record.applyChanges version) = read record)
    (record : Record) (versions : List Record) :
    read (versions.foldl applyChanges record) = read record := by
  induction versions generalizing record with
  | nil => rfl
  | cons version rest ih => rw [List.foldl_cons, ih, hread]

/-! ## Records with the same content -/

/-- Two records with the same name, the same fields and the same links. -/
structure Alike (left right : Record) : Prop where
  name : left.name = right.name
  fields : ∀ key : Plain, key.IsKey → left.fields.get? key = right.fields.get? key
  links : ∀ category target, left.payload? category target = right.payload? category target

theorem Alike.refl (record : Record) : record.Alike record :=
  ⟨rfl, fun _ _ => rfl, fun _ _ => rfl⟩

theorem Alike.trans {first second third : Record} (hleft : first.Alike second)
    (hright : second.Alike third) : first.Alike third where
  name := hleft.name.trans hright.name
  fields key hkey := (hleft.fields key hkey).trans (hright.fields key hkey)
  links category target := (hleft.links category target).trans (hright.links category target)

/-- One field or one link to write. -/
inductive Edit
  | field (name : String) (value : Plain)
  | link (written : Link)

namespace Edit

/-- The record with the field or the link written. -/
def apply : Edit → Record → Record
  | .field name value, record => record.setField name value
  | .link written, record => record.setLink written

@[simp]
theorem id_apply (edit : Edit) (record : Record) : (edit.apply record).id = record.id := by
  cases edit <;> rfl

@[simp]
theorem kind_apply (edit : Edit) (record : Record) :
    (edit.apply record).kind = record.kind := by
  cases edit <;> rfl

@[simp]
theorem name_apply (edit : Edit) (record : Record) :
    (edit.apply record).name = record.name := by
  cases edit <;> rfl

@[simp]
theorem isNew_apply (edit : Edit) (record : Record) :
    (edit.apply record).isNew = record.isNew := by
  cases edit <;> rfl

theorem tidy_apply (edit : Edit) {record : Record} (htidy : record.Tidy) :
    (edit.apply record).Tidy := by
  cases edit with
  | field name value => exact htidy.setField name value
  | link written => exact htidy.setLink written

/-- The value an edit gives to a field. -/
def field? (edit : Edit) (key : Plain) : Option Plain :=
  match edit with
  | .field name value => if (Plain.str name == key) = true then some value else none
  | .link _ => none

/-- The payload an edit gives to a link. -/
def payload? (edit : Edit) (category target : String) : Option (List Int) :=
  match edit with
  | .field _ _ => none
  | .link written =>
    if written.category = category ∧ written.target = target then some written.payload
    else none

theorem get?_fields_apply {key : Plain} (hkey : key.IsKey) (edit : Edit) (record : Record) :
    (edit.apply record).fields.get? key = (edit.field? key).or (record.fields.get? key) := by
  cases edit with
  | field name value =>
    simp only [apply, setField, Entries.get?_put_of_sharp hkey.sharp, field?]
    split <;> simp
  | link written => simp [apply, field?]

theorem payload?_apply (category target : String) (edit : Edit) (record : Record) :
    (edit.apply record).payload? category target =
      (edit.payload? category target).or (record.payload? category target) := by
  cases edit with
  | field name value => simp [apply, payload?_eq, payload?]
  | link written =>
    simp only [apply, payload?_eq, setLink, payloadIn_putLink, payload?]
    split <;> simp

theorem alike_apply (edit : Edit) {left right : Record} (halike : left.Alike right) :
    (edit.apply left).Alike (edit.apply right) where
  name := by simp [halike.name]
  fields key hkey := by
    rw [get?_fields_apply hkey, get?_fields_apply hkey, halike.fields key hkey]
  links category target := by
    rw [payload?_apply, payload?_apply, halike.links category target]

/-- Editing the last version that is applied edits the result. -/
theorem applyChanges_apply_alike (edit : Edit) (record : Record) {version : Record}
    (htidy : version.Tidy) :
    (record.applyChanges (edit.apply version)).Alike
      (edit.apply (record.applyChanges version)) where
  name := by simp [applyChanges]
  fields key hkey := by
    rw [get?_fields_applyChanges hkey _ (edit.tidy_apply htidy), get?_fields_apply hkey,
      get?_fields_apply hkey, get?_fields_applyChanges hkey _ htidy, Option.or_assoc]
  links category target := by
    rw [payload?_applyChanges _ _ _ (edit.tidy_apply htidy), payload?_apply,
      payload?_apply, payload?_applyChanges _ _ _ htidy, Option.or_assoc]

end Edit

end Record

end Patchwork
