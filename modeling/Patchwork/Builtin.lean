import Patchwork.Number.Decimal
import Patchwork.Text.Search

/-!
# Built-in names

Scripts call functions, predicates and procedures by name, and commands by name
after an at sign.  Each takes a fixed range of argument counts, which is checked
when a call is read.
-/

namespace Patchwork

/-- The argument counts a call may have; without `most`, any number from
`least` on. -/
structure Arity where
  least : Nat
  most : Option Nat
  deriving DecidableEq, Repr

namespace Arity

/-- Exactly one argument count. -/
def exactly (count : Nat) : Arity :=
  ⟨count, some count⟩

/-- Whether a call may have this many arguments. -/
def Accepts (arity : Arity) (count : Nat) : Prop :=
  arity.least ≤ count ∧ ∀ most ∈ arity.most, count ≤ most

instance (arity : Arity) (count : Nat) : Decidable (arity.Accepts count) := by
  unfold Accepts
  infer_instance

/-- The accepted counts in words. -/
def text (arity : Arity) : String :=
  match arity.most with
  | none => "at least " ++ integerText arity.least
  | some most =>
    if arity.least = most then integerText most
    else integerText arity.least ++ " to " ++ integerText most

/-- What is wrong with an argument count, if anything is. -/
def problem? (arity : Arity) (name : String) (count : Nat) : Option String :=
  if arity.Accepts count then none
  else some (name ++ " takes " ++ arity.text ++ " argument(s), got " ++ integerText count)

@[simp]
theorem problem?_eq_none_iff {arity : Arity} {name : String} {count : Nat} :
    arity.problem? name count = none ↔ arity.Accepts count := by
  simp [problem?]

end Arity

/-- The functions. -/
inductive Function
  | getField | toInt | toFloat | min | max | arrIndex | randomFloat | randomBetweenInts
  | containsExact | containsFolded | count | clone
  deriving DecidableEq, Repr

namespace Function

/-- Every function. -/
def all : List Function :=
  [getField, toInt, toFloat, min, max, arrIndex, randomFloat, randomBetweenInts,
    containsExact, containsFolded, count, clone]

/-- The name scripts call a function by. -/
def name : Function → String
  | getField => "GetField"
  | toInt => "ToInt"
  | toFloat => "ToFloat"
  | min => "Min"
  | max => "Max"
  | arrIndex => "ArrIndex"
  | randomFloat => "RandomFloat"
  | randomBetweenInts => "RandomBetweenInts"
  | containsExact => "ContainsCS"
  | containsFolded => "ContainsCI"
  | count => "Count"
  | clone => "Clone"

/-- The argument counts of a function. -/
def arity : Function → Arity
  | getField | toInt | toFloat | min | max | count => .exactly 1
  | randomFloat => .exactly 0
  | arrIndex | randomBetweenInts | containsExact | containsFolded | clone => .exactly 2

/-- Whether a function only works on a current record. -/
def needsRecord (function : Function) : Bool :=
  function == getField

/-- Whether the result of a function is always a record group. -/
def returnsGroup (function : Function) : Bool :=
  function == clone

end Function

/-- The predicates. -/
inductive Predicate
  | always | never | fieldExist | fieldIsNotEmpty | fieldIsEmptyOrNotExist
  | fieldIsEmptyAndExist | isLinkOfAny | linksAny | linksAll | isRemoved
  deriving DecidableEq, Repr

namespace Predicate

/-- Every predicate. -/
def all : List Predicate :=
  [always, never, fieldExist, fieldIsNotEmpty, fieldIsEmptyOrNotExist,
    fieldIsEmptyAndExist, isLinkOfAny, linksAny, linksAll, isRemoved]

/-- The name scripts call a predicate by. -/
def name : Predicate → String
  | always => "true"
  | never => "false"
  | fieldExist => "FieldExist"
  | fieldIsNotEmpty => "FieldIsNotEmpty"
  | fieldIsEmptyOrNotExist => "FieldIsEmptyOrNotExist"
  | fieldIsEmptyAndExist => "FieldIsEmptyAndExist"
  | isLinkOfAny => "isExtraDataOfAny"
  | linksAny => "hasAnyAsExtraData"
  | linksAll => "allExtraDataIsWithin"
  | isRemoved => "isRemoved"

/-- The argument counts of a predicate. -/
def arity : Predicate → Arity
  | always | never | isRemoved => .exactly 0
  | fieldExist | fieldIsNotEmpty | fieldIsEmptyOrNotExist | fieldIsEmptyAndExist => .exactly 1
  | isLinkOfAny | linksAny | linksAll => ⟨1, some 3⟩

/-- Whether a predicate only works on a current record. -/
def needsRecord : Predicate → Bool
  | always | never => false
  | _ => true

end Predicate

/-- The procedures. -/
inductive Procedure
  | setField | forceSetField | deleteRecords | editExtraData | addExtraData
  | forceAddExtraData | setFieldFromOther
  deriving DecidableEq, Repr

namespace Procedure

/-- Every procedure. -/
def all : List Procedure :=
  [setField, forceSetField, deleteRecords, editExtraData, addExtraData, forceAddExtraData,
    setFieldFromOther]

/-- The name scripts call a procedure by. -/
def name : Procedure → String
  | setField => "SetField"
  | forceSetField => "ForceSetField"
  | deleteRecords => "DeleteRecords"
  | editExtraData => "EditExtraData"
  | addExtraData => "AddExtraData"
  | forceAddExtraData => "ForceAddExtraData"
  | setFieldFromOther => "SetFieldFromOther"

/-- The argument counts of a procedure, its source group included. -/
def arity : Procedure → Arity
  | setField => .exactly 2
  | forceSetField | setFieldFromOther => .exactly 3
  | deleteRecords => .exactly 0
  | editExtraData | addExtraData | forceAddExtraData => ⟨2, some 3⟩

/-- Whether the first argument of a procedure is a source group, whose records
are paired with the target records. -/
def hasSource : Procedure → Bool
  | addExtraData | forceAddExtraData | setFieldFromOther => true
  | _ => false

end Procedure

/-- The commands, called for their effect at the top of a line. -/
inductive Command
  | print | debug | inspectRecord | showRecordEvolution | stop
  deriving DecidableEq, Repr

namespace Command

/-- Every command. -/
def all : List Command :=
  [print, debug, inspectRecord, showRecordEvolution, stop]

/-- The name scripts call a command by. -/
def name : Command → String
  | print => "Print"
  | debug => "Debug"
  | inspectRecord => "InspectRecord"
  | showRecordEvolution => "ShowRecordEvolution"
  | stop => "Stop"

/-- The argument counts of a command. -/
def arity : Command → Arity
  | print | debug => ⟨0, none⟩
  | inspectRecord => .exactly 2
  | showRecordEvolution => .exactly 1
  | stop => .exactly 0

/-- The command with a name. -/
def named? (name : String) : Option Command :=
  all.find? fun command => command.name == name

end Command

/-- What the name of a call stands for. -/
inductive Callee
  | predicate (called : Predicate)
  | procedure (called : Procedure)
  | function (called : Function)
  deriving DecidableEq, Repr

namespace Callee

/-- What a name stands for: predicates are looked up first, then procedures,
then functions. -/
def named? (name : String) : Option Callee :=
  match Predicate.all.find? fun called => called.name == name with
  | some called => some (.predicate called)
  | none =>
    match Procedure.all.find? fun called => called.name == name with
    | some called => some (.procedure called)
    | none => (Function.all.find? fun called => called.name == name).map .function

/-- The argument counts of what is called. -/
def arity : Callee → Arity
  | predicate called => called.arity
  | procedure called => called.arity
  | function called => called.arity

/-- The name of what is called. -/
def name : Callee → String
  | predicate called => called.name
  | procedure called => called.name
  | function called => called.name

theorem named?_predicate_name (called : Predicate) :
    named? called.name = some (.predicate called) := by
  cases called <;> decide

theorem named?_procedure_name (called : Procedure) :
    named? called.name = some (.procedure called) := by
  cases called <;> decide

theorem named?_function_name (called : Function) :
    named? called.name = some (.function called) := by
  cases called <;> decide

end Callee

end Patchwork
