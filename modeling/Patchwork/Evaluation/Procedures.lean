import Patchwork.Evaluation.World

/-!
# Procedures

A procedure works on every record of a target group, or on every pair of a
target and a source record.  Afterwards the header of the mod being patched
names the mods the targets came from as dependencies and the mods the sources
came from as references.
-/

namespace Patchwork

open Eval

/-- Calls a closure on arguments. -/
abbrev Caller := Closure → List Value → Eval Value

namespace Procedure

/-- The new value a transformer gives for one number of a payload. -/
def transform (caller : Caller) (closure : Closure) (number : Int) : Eval Int := do
  match ← caller closure [.integer number] with
  | .integer transformed => return transformed
  | other => fail (.transformedToOther (other.summary (← labels)))

/-- Whether a validator accepts a payload. -/
def validate (caller : Caller) (closure : Closure) (payload : List Int) : Eval Bool := do
  let verdict ← caller closure [.array (payload.map .integer)]
  labelled (verdict.expectBoolean · "extra data validator result")

/-- The payload with each number transformed by the transformer at its
position; numbers without one are kept. -/
def transformPayload : List (Int → Eval Int) → List Int → Eval (List Int)
  | _, [] => return []
  | [], payload => return payload
  | transformer :: others, number :: rest => do
    let transformed ← transformer number
    return transformed :: (← transformPayload others rest)

/-- Rewrites the accepted links of a category one after the other, and counts
them. -/
def editLinks (ref : RecordRef) (transformers : List (Int → Eval Int))
    (accepts : List Int → Eval Bool) : List Link → Eval Nat
  | [] => return 0
  | link :: rest => do
    if ← accepts link.payload then
      let payload ← transformPayload transformers link.payload
      onActive (Work.relink ref { link with payload := payload })
      return (← editLinks ref transformers accepts rest) + 1
    else editLinks ref transformers accepts rest

/-- Rewrites the accepted links a record has in a category. -/
def editCategory (ref : RecordRef) (category : String) (transformers : List (Int → Eval Int))
    (accepts : List Int → Eval Bool) : Eval Nat := do
  let record ← Eval.record ref
  editLinks ref transformers accepts (record.linkList (some category))

/-- The validator a third argument gives; without one every payload is
accepted. -/
def validatorArgument (caller : Caller) (arguments : List Argument)
    (argument : Nat → Eval Value) : Eval (List Int → Eval Bool) := do
  if arguments.length ≤ 2 then return fun _ => return true
  let validator ← labelled ((← argument 2).expectClosure · "EditExtraData validator")
  return validate caller validator

/-- Does the work of a procedure on one target record. -/
def onTarget (caller : Caller) (procedure : Procedure) (arguments : List Argument)
    (target : RecordRef) : Eval Unit := do
  let argument := fun position => Eval.argument procedure.name arguments position (some target)
  match procedure with
  | .setField =>
    let name ← labelled ((← argument 0).expectString · "SetField name")
    let value ← argument 1
    onActive (Work.setField target name (value.display (← labels)))
  | .forceSetField =>
    let name ← labelled ((← argument 0).expectString · "ForceSetField name")
    let value ← argument 1
    let declared ← labelled ((← argument 2).expectString · "ForceSetField type")
    onActive (Work.forceSetField target name (value.display (← labels)) declared)
  | .deleteRecords => onActive (Work.deleteRecord target)
  | .editExtraData =>
    let category ← labelled ((← argument 0).expectString · "EditExtraData category")
    let lambdas ← labelled ((← argument 1).expectArray · "EditExtraData transformers")
    let closures ← lambdas.mapM fun item =>
      labelled (item.expectClosure · "EditExtraData transformer")
    let accepts ← validatorArgument caller arguments argument
    let _ ← editCategory target category (closures.map (transform caller)) accepts
  | _ => fail (.missingArgument procedure.name)

/-- The payload an argument gives, if there is one at the position. -/
def payloadArgument (arguments : List Argument) (argument : Nat → Eval Value)
    (position : Nat) : Eval (Option (List Int)) := do
  if arguments.length ≤ position then return none
  let payload ← labelled ((← argument position).expectIntegers · "extra data values")
  return some payload

/-- Links a target to a source record. -/
def linkPair (procedure : Procedure) (arguments : List Argument) (target source : RecordRef)
    (forced : Bool) : Eval Unit := do
  let argument := fun position => Eval.argument procedure.name arguments position (some target)
  let category ← labelled ((← argument 1).expectString · "extra data category")
  let payload ← payloadArgument arguments argument 2
  onActive (Work.addLink target source category payload forced)

/-- Sets a field of the target to what a lambda makes of its value; inside the
lambda the source is the current record. -/
def setFromSource (caller : Caller) (procedure : Procedure) (arguments : List Argument)
    (target source : RecordRef) : Eval Unit := do
  let argument := Eval.argument procedure.name arguments
  let name ← labelled ((← argument 1 (some target)).expectString · "SetFieldFromOther name")
  let before ← Eval.record target
  if !before.hasField name then fail (.noField name before.label)
  let closure ←
    labelled ((← argument 2 (some source)).expectClosure · "SetFieldFromOther lambda")
  let current ← Eval.record target
  let result ← caller closure [← settle (Value.ofPlain ((current.field? name).getD .null))]
  onActive (Work.setField target name (result.display (← labels)))

/-- Does the work of a procedure on one target and one source record. -/
def onPair (caller : Caller) (procedure : Procedure) (arguments : List Argument)
    (target source : RecordRef) : Eval Unit :=
  match procedure with
  | .addExtraData => linkPair procedure arguments target source false
  | .forceAddExtraData => linkPair procedure arguments target source true
  | .setFieldFromOther => setFromSource caller procedure arguments target source
  | _ => fail (.missingArgument procedure.name)

/-- The pairs a procedure works on: by position, or every target with every
source. -/
def pairs (targets sources : Group) (pairwise : Bool) :
    Except Fault (List (RecordRef × RecordRef)) :=
  if pairwise then
    if targets.size = sources.size then .ok (targets.records.zip sources.records)
    else .error (.evaluation (.unevenPairs targets.size sources.size))
  else
    .ok (targets.records.flatMap fun target => sources.records.map fun source => (target, source))

/-- The mods a group was taken from, as header entries of another mod. -/
def headerEntries (group : Group) (mod : Mod) : List Plain :=
  (group.distinctMods (some mod.name)).map .str

/-- Does the work of a procedure on a target group. -/
def apply (caller : Caller) (procedure : Procedure) (arguments : List Argument)
    (targets : Group) (pairwise : Bool) : Eval Unit := do
  let mod ← requireActive
  let applied ←
    if procedure.hasSource then do
      let source ← labelled
        ((← Eval.argument procedure.name arguments 0 none).expectGroup ·
          (procedure.name ++ " source group"))
      let paired ← settle (pairs targets source pairwise)
      paired.forM fun (target, other) => procedure.onPair caller arguments target other
      onActive (Work.addReferences (headerEntries source mod))
      pure paired.length
    else do
      targets.records.forM fun target => procedure.onTarget caller arguments target
      pure targets.size
  onActive (Work.addDependencies (headerEntries targets mod))
  note .debug .procedures (procedure.name ++ " applied " ++ integerText applied ++ " time(s)")

end Procedure

end Patchwork
