import Patchwork.Expression.Coercion

/-!
# Environments

What the lines of a script have defined so far: names with their values, and
tables whose entries are expressions that are evaluated when they are looked
up.
-/

namespace Patchwork

/-- The definitions and the tables of a run. -/
structure Environment where
  definitions : Entries String Value := []
  tables : Entries String (Entries String Node) := []

namespace Environment

/-- The environment with a name defined. -/
def define (environment : Environment) (name : String) (value : Value) : Environment :=
  { environment with definitions := environment.definitions.put name value }

/-- The value of a name. -/
def lookup? (environment : Environment) (name : String) : Option Value :=
  environment.definitions.get? name

/-- The environment with a table entry written. -/
def setTableEntry (environment : Environment) (table key : String) (node : Node) :
    Environment :=
  { environment with
    tables := environment.tables.put table
      (((environment.tables.get? table).getD []).put key node) }

/-- The expression of a table entry. -/
def tableEntry (environment : Environment) (table key : String) : Except Fault Node :=
  match environment.tables.get? table with
  | none => .error (.evaluation (.noTable table))
  | some entries =>
    match entries.get? key with
    | none => .error (.evaluation (.noKey key table))
    | some node => .ok node

/-- The record group a name is defined as. -/
def group (environment : Environment) (name : String) : Except Fault Group :=
  match environment.lookup? name with
  | none => .error (.evaluation (.noDefinition name))
  | some (.group group) => .ok group
  | some _ => .error (.evaluation (.notGroupDefinition name))

/-- What a bare name in front of an index stands for: a table if there is one
of the name, otherwise the definition, otherwise a table still to come. -/
def tableOrDefinition (environment : Environment) (name : String) : Value :=
  match environment.tables.get? name, environment.lookup? name with
  | none, some value => value
  | _, _ => .table name

@[simp]
theorem tables_define (environment : Environment) (name : String) (value : Value) :
    (environment.define name value).tables = environment.tables := rfl

@[simp]
theorem definitions_setTableEntry (environment : Environment) (table key : String)
    (node : Node) :
    (environment.setTableEntry table key node).definitions = environment.definitions := rfl

@[simp]
theorem lookup?_define_self (environment : Environment) (name : String) (value : Value) :
    (environment.define name value).lookup? name = some value := by
  simp [define, lookup?]

end Environment

end Patchwork
