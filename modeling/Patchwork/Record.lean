import Patchwork.Plain

/-!
# Records

A record is one entry of the game data as one mod contributes it.  Records
with one identifier in several mods are versions of one thing: the version
flagged new introduces it and the others override some of its fields and
links.  A link leads from a record to another one; it belongs to a category and
carries a payload of integers.
-/

namespace Patchwork

/-- The links of a record: category, then target, then payload. -/
abbrev Links := Entries String (Entries String (List Int))

/-- One mod's version of a record. -/
structure Record where
  id : String
  kind : String
  name : String := ""
  mod : String := ""
  isNew : Bool := false
  fields : Entries Plain Plain := []
  links : Links := []
  deriving Inhabited

/-- One link with its category. -/
structure Link where
  category : String
  target : String
  payload : List Int
  deriving DecidableEq, Repr

namespace Record

/-- The field that marks a record as deleted. -/
def removedField : String := "REMOVED"

/-- The payload of a link made without one. -/
def defaultPayload : List Int := [0, 0, 0]

/-- The name and the identifier. -/
def label (record : Record) : String :=
  (if record.name == "" then "<unnamed>" else record.name) ++ " (" ++ record.id ++ ")"

/-- Whether the record introduces its identity or overrides it. -/
def standing (record : Record) : String :=
  if record.isNew then "new" else "override"

/-- One line with identifier, kind, mod and standing. -/
def summary (record : Record) : String :=
  "Record(" ++ Text.quoted record.id ++ ", " ++ record.kind ++ ", " ++
    Text.quoted record.mod ++ ", " ++ record.standing ++ ")"

/-! ## Fields -/

/-- The value of a field. -/
def field? (record : Record) (name : String) : Option Plain :=
  record.fields.get? (.str name)

/-- Whether the record has a field. -/
def hasField (record : Record) (name : String) : Bool :=
  (record.field? name).isSome

/-- Whether a field is there and holds the empty text. -/
def fieldIsEmpty (record : Record) (name : String) : Bool :=
  match record.field? name with
  | some (.str text) => text == ""
  | _ => false

/-- Whether the record is marked as deleted. -/
def isRemoved (record : Record) : Bool :=
  match record.field? removedField with
  | some (.bool flag) => flag
  | _ => false

/-- The record with a field written. -/
def setField (record : Record) (name : String) (value : Plain) : Record :=
  { record with fields := record.fields.put (.str name) value }

/-! ## Links -/

/-- The links, of one category or of all. -/
def linkList (record : Record) (category : Option String) : List Link :=
  record.links.flatMap fun (here, targets) =>
    if category.all (· == here) then
      targets.map fun (target, payload) => ⟨here, target, payload⟩
    else []

/-- Whether the record links to a target, in a category and with a payload if
these are asked for. -/
def hasLink (record : Record) (target : String) (category : Option String)
    (payload : Option (List Int)) : Bool :=
  (record.linkList category).any fun link =>
    link.target == target && payload.all (· == link.payload)

/-- The payload of one link. -/
def payload? (record : Record) (category target : String) : Option (List Int) :=
  (record.links.get? category).bind (·.get? target)

/-- The links with one of them written. -/
def putLink (links : Links) (link : Link) : Links :=
  links.put link.category
    (((links.get? link.category).getD []).put link.target link.payload)

/-- The record with a link written. -/
def setLink (record : Record) (link : Link) : Record :=
  { record with links := putLink record.links link }

/-! ## Versions -/

/-- The record with everything written that another version mentions: its name
unless it is empty, its fields and its links. -/
def applyChanges (record version : Record) : Record :=
  { record with
    name := if version.name == "" then record.name else version.name
    fields := record.fields.putAll version.fields
    links := (version.linkList none).foldl putLink record.links }

/-- The text of a payload. -/
def payloadText (payload : List Int) : String :=
  "[" ++ Text.joined ", " (payload.map integerText) ++ "]"

/-- Everything the record holds, one thing a line. -/
def describe (record : Record) : String :=
  let origin := if record.mod == "" then "?" else record.mod
  let header := record.kind ++ " " ++ record.label ++ " from " ++ origin ++
    " [" ++ record.standing ++ "]"
  let fields := record.fields.map fun (name, value) =>
    "  " ++ name.text ++ " = " ++ value.innerText
  let links := (record.linkList none).map fun link =>
    "  " ++ link.category ++ ": " ++ link.target ++ " " ++ payloadText link.payload
  Text.joined "\n" (header :: fields ++ links)

@[simp]
theorem field?_setField_self (record : Record) (name : String) (value : Plain) :
    (record.setField name value).field? name = some value := by
  simp only [setField, field?]
  induction record.fields with
  | nil => simp [Entries.put, Entries.get?]
  | cons head rest ih =>
    obtain ⟨here, old⟩ := head
    by_cases hhere : (here == Plain.str name) = true <;>
      simp [Entries.put, Entries.get?, hhere, ih]

@[simp]
theorem links_setField (record : Record) (name : String) (value : Plain) :
    (record.setField name value).links = record.links := rfl

@[simp]
theorem fields_setLink (record : Record) (link : Link) :
    (record.setLink link).fields = record.fields := rfl

end Record

end Patchwork
