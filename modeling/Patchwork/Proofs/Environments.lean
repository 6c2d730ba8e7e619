import Patchwork.Environment
import Patchwork.Proofs.Entries

/-!
# Everything in an environment

A property of all values that are defined and of all expressions in table entries: what
is looked up has it, and it stays when something with the property is defined.
-/

namespace Patchwork

namespace Environment

theorem lookup?_define (environment : Environment) (name other : String) (value : Value) :
    (environment.define name value).lookup? other =
      if name = other then some value else environment.lookup? other := by
  simp only [define, lookup?, Entries.get?_put, beq_iff_eq]

theorem lookup?_of_group {environment : Environment} {name : String} {group : Group}
    (hgroup : environment.group name = .ok group) :
    environment.lookup? name = some (.group group) := by
  unfold Environment.group at hgroup
  split at hgroup <;> cases hgroup
  assumption

/-- All definitions have one property and all table entries another one. -/
structure All (environment : Environment) (onValues : Value → Prop) (onNodes : Node → Prop) :
    Prop where
  definitions : ∀ entry ∈ environment.definitions, onValues entry.2
  tables : ∀ table ∈ environment.tables, ∀ entry ∈ table.2, onNodes entry.2

namespace All

variable {environment : Environment} {onValues : Value → Prop} {onNodes : Node → Prop}

theorem empty : ({} : Environment).All onValues onNodes :=
  ⟨fun _ hentry => (nomatch hentry), fun _ htable => (nomatch htable)⟩

variable (hall : environment.All onValues onNodes)

include hall

theorem of_lookup? {name : String} {value : Value}
    (hlookup : environment.lookup? name = some value) : onValues value := by
  obtain ⟨here, hmem⟩ := Entries.mem_of_get? hlookup
  exact hall.definitions (here, value) hmem

theorem of_group {name : String} {group : Group} (hgroup : environment.group name = .ok group) :
    onValues (.group group) := by
  unfold Environment.group at hgroup
  split at hgroup <;> cases hgroup
  rename_i hlookup
  exact hall.of_lookup? hlookup

theorem of_tableEntry {table key : String} {node : Node}
    (hentry : environment.tableEntry table key = .ok node) : onNodes node := by
  unfold tableEntry at hentry
  split at hentry
  · cases hentry
  · rename_i entries htable
    split at hentry <;> cases hentry
    rename_i hfound
    obtain ⟨here, hmem⟩ := Entries.mem_of_get? htable
    obtain ⟨other, hinner⟩ := Entries.mem_of_get? hfound
    exact hall.tables (here, entries) hmem (other, node) hinner

theorem tableOrDefinition (htable : ∀ name, onValues (.table name)) (name : String) :
    onValues (environment.tableOrDefinition name) := by
  unfold Environment.tableOrDefinition
  split
  · rename_i hlookup
    exact hall.of_lookup? hlookup
  · exact htable name

theorem define {value : Value} (hvalue : onValues value) (name : String) :
    (environment.define name value).All onValues onNodes where
  definitions entry hentry := by
    rcases Entries.mem_put hentry with hold | hnew
    · exact hall.definitions entry hold
    · rw [hnew]
      exact hvalue
  tables := hall.tables

theorem setTableEntry {node : Node} (hnode : onNodes node) (table key : String) :
    (environment.setTableEntry table key node).All onValues onNodes where
  definitions := hall.definitions
  tables written hwritten entry hentry := by
    rcases Entries.mem_put hwritten with hold | hnew
    · exact hall.tables written hold entry hentry
    rw [hnew] at hentry
    rcases Entries.mem_put hentry with hinner | hlast
    · cases htable : environment.tables.get? table with
      | none =>
        rw [htable] at hinner
        cases hinner
      | some entries =>
        rw [htable] at hinner
        obtain ⟨here, hmem⟩ := Entries.mem_of_get? htable
        exact hall.tables (here, entries) hmem entry hinner
    · rw [hlast]
      exact hnode

end All

end Environment

end Patchwork
