import Patchwork.Evaluation.World
import Patchwork.Text.Folding

/-!
# Calls of built-ins

Functions, predicates and commands get their arguments unevaluated and evaluate
each of them once, against the current record.
-/

namespace Patchwork

open Eval

/-- The current record, which a built-in needs. -/
def requireRecord (name : String) (record : Option RecordRef) : Eval RecordRef :=
  match record with
  | some ref => return ref
  | none => fail (.needsRecord name)

namespace Function

/-- The numbers of an array that is not empty. -/
def numbers (purpose : String) (value : Value) : Eval (List Binary64) := do
  let items ← labelled fun labels => value.expectArray labels purpose
  if items.isEmpty then fail (.emptyArray purpose)
  items.mapM fun item => labelled item.toFloat

/-- The first number that no other one is below. -/
def least : List Binary64 → Binary64
  | [] => .zero
  | first :: rest => rest.foldl (fun best number => if number.less best then number else best) first

/-- The first number that no other one is above. -/
def greatest : List Binary64 → Binary64
  | [] => .zero
  | first :: rest => rest.foldl (fun best number => if best.less number then number else best) first

/-- Clones the only record of a group. -/
def cloneGroup (group : Group) (count : Int) : Eval Value := do
  match group.members with
  | [member] =>
    let mod ← requireActive
    let clones ← onActive (Work.cloneRecord member.record count)
    return .group ⟨clones.map (Member.mk mod.name)⟩
  | members => fail (.cloneOfGroup members.length)

/-- The result of a function, before it is marked. -/
def result (function : Function) (record : Option RecordRef) (arguments : List Argument) :
    Eval Value := do
  let argument := fun position => Eval.argument function.name arguments position record
  match function with
  | .getField =>
    let ref ← requireRecord function.name record
    let name ← labelled ((← argument 0).expectString · "GetField name")
    let current ← Eval.record ref
    match current.field? name with
    | none => fail (.noField name current.label)
    | some value => settle (Value.ofPlain value)
  | .toInt => return .integer (← labelled (← argument 0).toInteger)
  | .toFloat => return .float (← labelled (← argument 0).toFloat)
  | .min => return .ofNumber (least (← numbers "Min" (← argument 0)))
  | .max => return .ofNumber (greatest (← numbers "Max" (← argument 0)))
  | .arrIndex =>
    let items ← labelled ((← argument 0).expectArray · "ArrIndex array")
    let position ← labelled ((← argument 1).expectInteger · "ArrIndex index")
    if position < 0 then fail (.elementOutOfRange position items.length)
    match items[position.toNat]? with
    | none => fail (.elementOutOfRange position items.length)
    | some element =>
      if element.isIntegerLike then return .integer (← labelled element.toInteger)
      else fail (.elementNotInteger (element.summary (← labels)))
  | .randomFloat =>
    let world ← get
    let (number, draws) := world.draws.fraction
    set { world with draws := draws }
    return .float number
  | .randomBetweenInts =>
    let low ← labelled ((← argument 0).expectInteger · "RandomBetweenInts minimum")
    let high ← labelled ((← argument 1).expectInteger · "RandomBetweenInts maximum")
    if high < low then fail (.emptyRange high low)
    if high = low then return .integer low
    let world ← get
    let (number, draws) := world.draws.between low high
    set { world with draws := draws }
    return .integer number
  | .containsExact =>
    let text ← labelled ((← argument 0).expectString · "ContainsCS text")
    let part ← labelled ((← argument 1).expectString · "ContainsCS part")
    return .boolean (Text.contains text part)
  | .containsFolded =>
    let text ← labelled ((← argument 0).expectString · "ContainsCI text")
    let part ← labelled ((← argument 1).expectString · "ContainsCI part")
    return .boolean (Text.contains (Text.fold text) (Text.fold part))
  | .count =>
    let group ← labelled ((← argument 0).expectGroup · "Count")
    return .integer group.size
  | .clone =>
    let group ← labelled ((← argument 0).expectGroup · "Clone group")
    let count ← labelled ((← argument 1).expectInteger · "Clone count")
    cloneGroup group count

/-- The result of a function. -/
def apply (function : Function) (record : Option RecordRef) (arguments : List Argument) :
    Eval Value := do
  mark (← function.result record arguments)

end Function

namespace Predicate

/-- The arguments of a predicate about links: a group, a category if given, and
a payload if given. -/
def linkArguments (arguments : List Argument) (argument : Nat → Eval Value) :
    Eval (Group × Option String × Option (List Int)) := do
  let group ← labelled ((← argument 0).expectGroup · "extra data group")
  if arguments.length ≤ 1 then return (group, none, none)
  let category ← labelled ((← argument 1).expectString · "extra data category")
  if arguments.length ≤ 2 then return (group, some category, none)
  let payload ← labelled ((← argument 2).expectIntegers · "extra data values")
  return (group, some category, some payload)

/-- A test of one field of the current record. -/
def testField (predicate : Predicate) (record : Option RecordRef)
    (argument : Nat → Eval Value) (test : Record → String → Bool) : Eval Bool := do
  let ref ← requireRecord predicate.name record
  let name ← labelled ((← argument 0).expectString · "field name")
  return test (← Eval.record ref) name

/-- A test of the current record against the records of a group. -/
def testLinks (predicate : Predicate) (record : Option RecordRef)
    (arguments : List Argument) (argument : Nat → Eval Value)
    (test : Record → List Record → Option String → Option (List Int) → Bool) : Eval Bool := do
  let ref ← requireRecord predicate.name record
  let (group, category, payload) ← linkArguments arguments argument
  let pool := (← get).pool
  return test (pool.get ref) (group.records.map pool.get) category payload

/-- Whether a predicate holds. -/
def apply (predicate : Predicate) (record : Option RecordRef) (arguments : List Argument) :
    Eval Bool := do
  let argument := fun position => Eval.argument predicate.name arguments position record
  match predicate with
  | .always => return true
  | .never => return false
  | .fieldExist => predicate.testField record argument Record.hasField
  | .fieldIsNotEmpty =>
    predicate.testField record argument fun current name =>
      current.hasField name && !current.fieldIsEmpty name
  | .fieldIsEmptyOrNotExist =>
    predicate.testField record argument fun current name =>
      !current.hasField name || current.fieldIsEmpty name
  | .fieldIsEmptyAndExist =>
    predicate.testField record argument fun current name =>
      current.hasField name && current.fieldIsEmpty name
  | .isLinkOfAny =>
    predicate.testLinks record arguments argument fun current others category payload =>
      others.any fun owner => owner.hasLink current.id category payload
  | .linksAny =>
    predicate.testLinks record arguments argument fun current others category payload =>
      others.any fun other => current.hasLink other.id category payload
  | .linksAll =>
    predicate.testLinks record arguments argument fun current others category payload =>
      others.all fun other => current.hasLink other.id category payload
  | .isRemoved =>
    let ref ← requireRecord predicate.name record
    return (← Eval.record ref).isRemoved

end Predicate

namespace Command

/-- The texts of all arguments with blanks between them. -/
def joinedArguments (record : Option RecordRef) (arguments : List Argument) : Eval String := do
  let texts ← arguments.mapM fun argument => do
    return (← argument record).display (← labels)
  return Text.joined " " texts

/-- Does what a command says. -/
def apply (repository : Repository) (command : Command) (record : Option RecordRef)
    (arguments : List Argument) : Eval Unit := do
  let argument := fun position => Eval.argument command.name arguments position record
  match command with
  | .print => note .info .commands (← joinedArguments record arguments)
  | .debug => note .debug .commands (← joinedArguments record arguments)
  | .inspectRecord =>
    let group ← labelled ((← argument 0).expectGroup · "InspectRecord group")
    let id := (← argument 1).display (← labels)
    let pool := (← get).pool
    match group.find? pool id with
    | none => fail (.notInGroup id)
    | some ref => note .info .commands (pool.get ref).describe
  | .showRecordEvolution =>
    let id := (← argument 0).display (← labels)
    let pool := (← get).pool
    let versions := repository.versions pool id
    if versions.isEmpty then
      note .info .commands ("No loaded mod contains '" ++ id ++ "'")
    else
      versions.forM fun (mod, ref) =>
        note .info .commands ("--- " ++ mod ++ " ---\n" ++ (pool.get ref).describe)
  | .stop =>
    note .info .context "Stop requested; remaining lines will be skipped"
    modify fun world => { world with stopping := true }

end Command

end Patchwork
