import Patchwork.Proofs.Agreement
import Patchwork.Proofs.Evaluation.Outcomes

/-!
# Quiet expressions

A quiet expression calls no procedure and no command, clones nothing, draws no random number
and looks nothing up in a table.  Evaluating it changes nothing but the supply of marks, and
it sees of the records no more than how they are called, their identifiers and their links,
and the fields of the current record.
-/

namespace Patchwork

open Agree

/-! ## Expressions that are quiet -/

mutual

/-- A value that is no table and has none among its elements. -/
def Value.Untabled : Value → Prop
  | .array items => AllUntabled items
  | .table _ => False
  | _ => True

/-- Values without tables. -/
def AllUntabled : List Value → Prop
  | [] => True
  | item :: rest => item.Untabled ∧ AllUntabled rest

end

mutual

/-- An expression whose value, taken from what stands in it, is without tables. -/
def Node.Untabled (environment : Environment) : Node → Prop
  | .literal value => value.Untabled
  | .tableName name => (environment.tableOrDefinition name).Untabled
  | .array elements => AllNodesUntabled environment elements
  | .index target _ => target.Untabled environment
  | .pipe left _ _ _ => left.Untabled environment
  | _ => True

/-- Expressions whose values are without tables. -/
def AllNodesUntabled (environment : Environment) : List Node → Prop
  | [] => True
  | node :: rest => node.Untabled environment ∧ AllNodesUntabled environment rest

end

/-- A function that neither makes records nor draws random numbers. -/
def Function.Quiet : Function → Prop
  | .clone | .randomFloat | .randomBetweenInts => False
  | _ => True

mutual

/-- An expression without calls of procedures, commands, cloning and random functions, and
with no index into anything that may be a table.  The body of a lambda is not evaluated with
the lambda. -/
def Node.Quiet (environment : Environment) : Node → Prop
  | .unary _ operand => operand.Quiet environment
  | .binary _ left right => left.Quiet environment ∧ right.Quiet environment
  | .call function arguments => function.Quiet ∧ AllQuiet environment arguments
  | .test _ arguments => AllQuiet environment arguments
  | .array elements => AllQuiet environment elements
  | .index target position =>
    target.Untabled environment ∧ target.Quiet environment ∧ position.Quiet environment
  | .procedure .. | .pipe .. | .command .. => False
  | _ => True

/-- Expressions that are all quiet. -/
def AllQuiet (environment : Environment) : List Node → Prop
  | [] => True
  | node :: rest => node.Quiet environment ∧ AllQuiet environment rest

end

theorem allUntabled_iff {items : List Value} :
    AllUntabled items ↔ ∀ item ∈ items, item.Untabled := by
  induction items with
  | nil => exact ⟨fun _ _ hitem => (nomatch hitem), fun _ => trivial⟩
  | cons item rest ih => rw [AllUntabled, ih, List.forall_mem_cons]

mutual

theorem Value.Data.untabled {value : Value} (hdata : value.Data) : value.Untabled := by
  cases value with
  | array items => exact AllData.untabled hdata
  | table name => exact hdata.elim
  | _ => trivial

theorem AllData.untabled {items : List Value} (hdata : AllData items) : AllUntabled items := by
  cases items with
  | nil => trivial
  | cons item rest => exact ⟨hdata.1.untabled, hdata.2.untabled⟩

end

/-! ## Worlds that cannot be told apart -/

/-- Two pools that look the same at a current record. -/
structure Pool.Resembles (current : Option RecordRef) (pool other : Pool) : Prop where
  label : ∀ ref, other.label ref = pool.label ref
  id : ∀ ref, (other.get ref).id = (pool.get ref).id
  links : ∀ ref, (other.get ref).links = (pool.get ref).links
  fields : ∀ ref, current = some ref → (other.get ref).fields = (pool.get ref).fields

/-- Two worlds with one supply of marks. -/
inductive World.Twins (left right : World) : World → World → Prop
  | marked (marks : Nat) :
    Twins left right { left with marks := marks } { right with marks := marks }

namespace Eval

variable {Result Other Item : Type}

/-- From two worlds with one supply of marks two evaluations change nothing else, and they
fail alike or give one result with a property. -/
abbrev Quietly (left right : World) (holds : Result → Prop) (first second : Eval Result) : Prop :=
  Computations (World.Twins left right) (fun result other => other = result ∧ holds result)
    first second

variable {left right : World} {holds weaker : Result → Prop} {holdsNext : Other → Prop}
  {first second : Eval Result}

theorem Quietly.mono (hquietly : Quietly left right holds first second)
    (hweaker : ∀ result, holds result → weaker result) :
    Quietly left right weaker first second :=
  Computations.mono hquietly fun result _ hsame => ⟨hsame.1, hweaker result hsame.2⟩

theorem Quietly.any (hquietly : Quietly left right holds first second) :
    Quietly left right (fun _ => True) first second :=
  hquietly.mono fun _ _ => trivial

theorem quietly_pure {result : Result} (hresult : holds result) :
    Quietly left right holds (pure result) (pure result) :=
  Computations.of_pure ⟨rfl, hresult⟩

theorem quietly_fail (fault : EvaluationFault) :
    Quietly left right holds (fail fault) (fail fault) :=
  Computations.of_throw (.evaluation fault)

theorem quietly_fail_bind (fault : EvaluationFault) (next next' : Result → Eval Other) :
    Quietly left right holdsNext (fail fault >>= next) (fail fault >>= next') :=
  Computations.of_throw_bind (.evaluation fault) next next'

theorem Quietly.bind {next next' : Result → Eval Other}
    (hquietly : Quietly left right holds first second)
    (hnext : ∀ result, holds result →
      Quietly left right holdsNext (next result) (next' result)) :
    Quietly left right holdsNext (first >>= next) (second >>= next') :=
  Computations.of_bind hquietly fun result other hsame => by
    obtain ⟨rfl, hresult⟩ := hsame
    exact hnext _ hresult

theorem quietly_settle {outcome : Except Fault Result}
    (hresult : ∀ result, outcome = .ok result → holds result) :
    Quietly left right holds (settle outcome) (settle outcome) := by
  cases outcome with
  | ok result => exact quietly_pure (hresult result rfl)
  | error fault => exact Computations.of_throw fault

theorem quietly_mapM {step : Item → Eval Result}
    (hstep : ∀ item, Quietly left right holds (step item) (step item)) (items : List Item) :
    Quietly left right (fun _ => True) (items.mapM step) (items.mapM step) := by
  induction items with
  | nil => exact quietly_pure trivial
  | cons item rest ih =>
    rw [List.mapM_cons]
    exact (hstep item).bind fun _ _ => ih.bind fun _ _ => quietly_pure trivial

theorem quietly_nextMark : Quietly left right (fun _ => True) nextMark nextMark where
  run := by
    rintro _ _ ⟨marks⟩
    exact ⟨.ok ⟨rfl, trivial⟩, .marked (marks + 1)⟩

theorem quietly_mark (value : Value) :
    Quietly left right (fun marked => value.Untabled → marked.Untabled) (mark value)
      (mark value) := by
  unfold mark
  split
  · exact quietly_nextMark.bind fun _ _ => quietly_pure fun _ => trivial
  · exact quietly_pure id

/-- Records are read as they are in either world. -/
theorem agree_record (ref : RecordRef) :
    Computations (World.Twins left right)
      (fun record record' => record = left.pool.get ref ∧ record' = right.pool.get ref)
      (record ref) (record ref) where
  run := by
    rintro _ _ ⟨marks⟩
    exact ⟨.ok ⟨rfl, rfl⟩, .marked marks⟩

theorem agree_get :
    Computations (World.Twins left right)
      (fun world world' => world.pool = left.pool ∧ world'.pool = right.pool)
      (get : Eval World) (get : Eval World) where
  run := by
    rintro _ _ ⟨marks⟩
    exact ⟨.ok ⟨rfl, rfl⟩, .marked marks⟩

section

variable {current : Option RecordRef} (hresembles : left.pool.Resembles current right.pool)

include hresembles

theorem quietly_labels :
    Quietly left right (fun labels => labels = left.pool.label) labels labels where
  run := by
    rintro _ _ ⟨marks⟩
    exact ⟨.ok ⟨funext hresembles.label, rfl⟩, .marked marks⟩

theorem quietly_labelled {compute : Labels → Except Fault Result}
    (hresult : ∀ result, compute left.pool.label = .ok result → holds result) :
    Quietly left right holds (labelled compute) (labelled compute) :=
  (quietly_labels hresembles).bind fun _ hlabels =>
    quietly_settle fun result hcompute => hresult result (hlabels ▸ hcompute)

/-- A computation about whose result nothing needs to be known. -/
theorem quietly_plain (compute : Labels → Except Fault Result) :
    Quietly left right (fun _ => True) (labelled compute) (labelled compute) :=
  quietly_labelled hresembles fun _ _ => trivial

end

theorem quietly_requireRecord (name : String) (current : Option RecordRef) :
    Quietly left right (fun ref => current = some ref) (requireRecord name current)
      (requireRecord name current) := by
  cases current with
  | none => exact quietly_fail _
  | some ref => exact quietly_pure rfl

/-- Arguments that change nothing but the supply of marks, and give one value. -/
def QuietArguments (left right : World) (current : Option RecordRef)
    (arguments arguments' : List Argument) : Prop :=
  List.Forall₂ (fun argument argument' : Argument =>
    Quietly left right (fun _ => True) (argument current) (argument' current))
      arguments arguments'

theorem quietly_argument (name : String) {current : Option RecordRef}
    {arguments arguments' : List Argument}
    (harguments : QuietArguments left right current arguments arguments') (position : Nat) :
    Quietly left right (fun _ => True) (argument name arguments position current)
      (argument name arguments' position current) := by
  unfold argument
  induction harguments generalizing position with
  | nil => exact quietly_fail _
  | cons hargument _ ih =>
    cases position with
    | zero => exact hargument
    | succ position =>
      rw [List.getElem?_cons_succ, List.getElem?_cons_succ]
      exact ih position

end Eval

/-! ## Calls -/

open Eval

theorem Record.hasLink_congr {record other : Record} (hlinks : other.links = record.links)
    (target : String) (category : Option String) (payload : Option (List Int)) :
    other.hasLink target category payload = record.hasLink target category payload := by
  rw [hasLink, linkList, hlinks, hasLink, linkList]

section

variable {left right : World} {current : Option RecordRef} {arguments arguments' : List Argument}
  (hresembles : left.pool.Resembles current right.pool)
  (harguments : QuietArguments left right current arguments arguments')

include hresembles

namespace Function

theorem quietly_numbers (purpose : String) (value : Value) :
    Quietly left right (fun _ => True) (numbers purpose value) (numbers purpose value) := by
  refine (quietly_plain hresembles _).bind fun items _ => ?_
  split
  · exact quietly_fail_bind _ _ _
  · exact quietly_mapM (fun item => quietly_plain hresembles _) items

include harguments

theorem quietly_result {function : Function} (hquiet : function.Quiet) :
    Quietly left right Value.Untabled (function.result current arguments)
      (function.result current arguments') := by
  have hargument := quietly_argument function.name harguments
  have hnumber : ∀ number : Binary64, (Value.ofNumber number).Untabled := by
    intro number
    unfold Value.ofNumber
    split <;> trivial
  cases function with
  | getField =>
    refine (quietly_requireRecord _ current).bind fun ref href => ?_
    refine (hargument 0).bind fun value _ => ?_
    refine (quietly_plain hresembles _).bind fun name _ => ?_
    refine (agree_record ref).of_bind fun record record' hrecords => ?_
    obtain ⟨rfl, rfl⟩ := hrecords
    have hfield : (right.pool.get ref).field? name = (left.pool.get ref).field? name := by
      rw [Record.field?, hresembles.fields ref href, Record.field?]
    have hlabel : (right.pool.get ref).label = (left.pool.get ref).label := hresembles.label ref
    rw [hfield, hlabel]
    cases (left.pool.get ref).field? name with
    | none => exact quietly_fail _
    | some plain =>
      exact quietly_settle fun result hresult =>
        ((Value.meets_ofPlain plain).gives result hresult).untabled
  | toInt =>
    exact (hargument 0).bind fun _ _ => (quietly_plain hresembles _).bind fun _ _ =>
      quietly_pure trivial
  | toFloat =>
    exact (hargument 0).bind fun _ _ => (quietly_plain hresembles _).bind fun _ _ =>
      quietly_pure trivial
  | min | max =>
    exact (hargument 0).bind fun value _ => (quietly_numbers hresembles _ value).bind
      fun _ _ => quietly_pure (hnumber _)
  | arrIndex =>
    refine (hargument 0).bind fun _ _ => (quietly_plain hresembles _).bind fun items _ => ?_
    refine (hargument 1).bind fun _ _ => (quietly_plain hresembles _).bind fun position _ => ?_
    dsimp only
    split
    · exact quietly_fail_bind _ _ _
    split
    · exact quietly_fail _
    split
    · exact (quietly_plain hresembles _).bind fun _ _ => quietly_pure trivial
    · exact (quietly_labels hresembles).bind fun _ _ => quietly_fail _
  | containsExact | containsFolded =>
    refine (hargument 0).bind fun _ _ => (quietly_plain hresembles _).bind fun _ _ => ?_
    exact (hargument 1).bind fun _ _ => (quietly_plain hresembles _).bind fun _ _ =>
      quietly_pure trivial
  | count =>
    exact (hargument 0).bind fun _ _ => (quietly_plain hresembles _).bind fun _ _ =>
      quietly_pure trivial
  | randomFloat | randomBetweenInts | clone => exact hquiet.elim

theorem quietly_apply {function : Function} (hquiet : function.Quiet) :
    Quietly left right Value.Untabled (function.apply current arguments)
      (function.apply current arguments') :=
  (quietly_result hresembles harguments hquiet).bind fun value hvalue =>
    (quietly_mark value).mono fun _ hmarked => hmarked hvalue

end Function

/-! ### Predicates -/

namespace Predicate

include harguments

theorem quietly_testField (predicate : Predicate) {test : Record → String → Bool}
    (htest : ∀ record other : Record, other.fields = record.fields → test other = test record) :
    Quietly left right (fun _ => True)
      (predicate.testField current
        (fun position => argument predicate.name arguments position current) test)
      (predicate.testField current
        (fun position => argument predicate.name arguments' position current) test) := by
  refine (quietly_requireRecord _ current).bind fun ref href => ?_
  refine (quietly_argument predicate.name harguments 0).bind fun value _ => ?_
  refine (quietly_plain hresembles _).bind fun name _ => ?_
  refine (agree_record ref).of_bind fun record record' hrecords => ?_
  obtain ⟨rfl, rfl⟩ := hrecords
  rw [htest _ _ (hresembles.fields ref href)]
  exact quietly_pure trivial

theorem quietly_linkArguments (name : String) :
    Quietly left right (fun _ => True)
      (linkArguments arguments fun position => argument name arguments position current)
      (linkArguments arguments' fun position => argument name arguments' position current) := by
  have hargument := quietly_argument name harguments
  unfold linkArguments
  rw [harguments.length_eq]
  refine (hargument 0).bind fun _ _ => (quietly_plain hresembles _).bind fun group _ => ?_
  split
  · exact quietly_pure trivial
  refine (hargument 1).bind fun _ _ => (quietly_plain hresembles _).bind fun category _ => ?_
  split
  · exact quietly_pure trivial
  exact (hargument 2).bind fun _ _ => (quietly_plain hresembles _).bind fun _ _ =>
    quietly_pure trivial

theorem quietly_testLinks (predicate : Predicate)
    {test : Record → List Record → Option String → Option (List Int) → Bool}
    (htest : ∀ (ref : RecordRef) (refs : List RecordRef) category payload,
      test (right.pool.get ref) (refs.map right.pool.get) category payload =
        test (left.pool.get ref) (refs.map left.pool.get) category payload) :
    Quietly left right (fun _ => True)
      (predicate.testLinks current arguments
        (fun position => argument predicate.name arguments position current) test)
      (predicate.testLinks current arguments'
        (fun position => argument predicate.name arguments' position current) test) := by
  refine (quietly_requireRecord _ current).bind fun ref _ => ?_
  refine (quietly_linkArguments hresembles harguments _).bind fun given _ => ?_
  obtain ⟨group, category, payload⟩ := given
  refine agree_get.of_bind fun world world' hpools => ?_
  dsimp only
  rw [hpools.1, hpools.2, htest]
  exact quietly_pure trivial

theorem quietly_apply (predicate : Predicate) :
    Quietly left right (fun _ => True) (predicate.apply current arguments)
      (predicate.apply current arguments') := by
  have hlinks : ∀ (ref : RecordRef) (target : String) category payload,
      (right.pool.get ref).hasLink target category payload =
        (left.pool.get ref).hasLink target category payload :=
    fun ref => Record.hasLink_congr (hresembles.links ref)
  have hfields : ∀ record other : Record, other.fields = record.fields →
      other.hasField = record.hasField ∧ other.fieldIsEmpty = record.fieldIsEmpty := by
    intro record other hsame
    constructor <;> funext name <;>
      simp only [Record.hasField, Record.fieldIsEmpty, Record.field?, hsame]
  unfold apply
  cases predicate with
  | always | never => exact quietly_pure trivial
  | fieldExist =>
    exact quietly_testField hresembles harguments .fieldExist fun record other hsame =>
      (hfields record other hsame).1
  | fieldIsNotEmpty =>
    refine quietly_testField hresembles harguments .fieldIsNotEmpty fun record other hsame => ?_
    rw [(hfields record other hsame).1, (hfields record other hsame).2]
  | fieldIsEmptyOrNotExist =>
    refine quietly_testField hresembles harguments .fieldIsEmptyOrNotExist
      fun record other hsame => ?_
    rw [(hfields record other hsame).1, (hfields record other hsame).2]
  | fieldIsEmptyAndExist =>
    refine quietly_testField hresembles harguments .fieldIsEmptyAndExist
      fun record other hsame => ?_
    rw [(hfields record other hsame).1, (hfields record other hsame).2]
  | isLinkOfAny =>
    refine quietly_testLinks hresembles harguments .isLinkOfAny
      fun ref refs category payload => ?_
    simp only [List.any_map, Function.comp_def, hlinks, hresembles.id]
  | linksAny =>
    refine quietly_testLinks hresembles harguments .linksAny fun ref refs category payload => ?_
    simp only [List.any_map, Function.comp_def, hlinks, hresembles.id]
  | linksAll =>
    refine quietly_testLinks hresembles harguments .linksAll fun ref refs category payload => ?_
    simp only [List.all_map, Function.comp_def, hlinks, hresembles.id]
  | isRemoved =>
    refine (quietly_requireRecord _ current).bind fun ref href => ?_
    refine (agree_record ref).of_bind fun record record' hrecords => ?_
    obtain ⟨rfl, rfl⟩ := hrecords
    have hremoved : (right.pool.get ref).isRemoved = (left.pool.get ref).isRemoved := by
      simp only [Record.isRemoved, Record.field?, hresembles.fields ref href]
    rw [hremoved]
    exact quietly_pure trivial

end Predicate

end

/-! ## Expressions -/

theorem quietly_elementAt {left right : World} (items : List Value) (position : Int) :
    Quietly left right (fun value => AllUntabled items → value.Untabled)
      (elementAt items position) (elementAt items position) := by
  unfold elementAt
  split
  · rename_i element helement
    have hmem : element ∈ items := by
      split at helement
      · cases helement
      · exact List.mem_of_getElem? helement
    exact quietly_pure fun hitems => allUntabled_iff.mp hitems element hmem
  · exact quietly_fail _

section

variable {left right : World} {current : Option RecordRef}
  (hresembles : left.pool.Resembles current right.pool)

include hresembles


variable {first second : Eval Value} (hright : Quietly left right (fun _ => True) first second)

include hright

theorem quietly_logical (operator : BinaryOperator) (value : Value) :
    Quietly left right Value.Untabled (logical operator value first)
      (logical operator value second) := by
  refine (quietly_plain hresembles _).bind fun flag _ => ?_
  cases operator.decided? flag with
  | some decided => exact quietly_pure trivial
  | none => exact hright.bind fun _ _ => (quietly_plain hresembles _).bind fun _ _ =>
      quietly_pure trivial

theorem quietly_combine (operator : BinaryOperator) (value : Value) :
    Quietly left right Value.Untabled (combine operator value first)
      (combine operator value second) := by
  unfold combine
  split
  · exact quietly_logical hresembles hright operator value
  · refine hright.bind fun other _ => ?_
    refine (quietly_labelled hresembles fun result hresult =>
      ((BinaryOperator.meets_apply _ operator value other).gives result hresult).untabled).bind
        fun result hresult => ?_
    exact (quietly_mark result).mono fun _ hmarked => hmarked hresult

omit hright

theorem quietly_combineOne (operator : UnaryOperator) (operand : Value) :
    Quietly left right Value.Untabled (combineOne operator operand)
      (combineOne operator operand) := by
  refine (quietly_labelled hresembles fun result hresult =>
    ((UnaryOperator.meets_apply _ operator operand).gives result hresult).untabled).bind
      fun result hresult => ?_
  exact (quietly_mark result).mono fun _ hmarked => hmarked hresult

/-- An index into a value that is no table. -/
theorem quietly_valueAt {target : Value} (htarget : target.Untabled) (position : Value)
    (deeper deeper' : Deeper) (setting setting' : Setting) (record : Option RecordRef) :
    Quietly left right Value.Untabled (valueAt deeper setting target position record)
      (valueAt deeper' setting' target position record) := by
  unfold valueAt
  cases target with
  | table name => exact htarget.elim
  | array items =>
    refine (quietly_plain hresembles _).bind fun index _ => ?_
    exact (quietly_elementAt items index).mono fun _ hvalue => hvalue htarget
  | _ => exact (quietly_labels hresembles).bind fun _ _ => quietly_fail _

end

section

variable {left right : World} {current : Option RecordRef} {setting setting' : Setting}

mutual

/-- Evaluating a quiet expression changes nothing but the supply of marks, and gives the same
in worlds that cannot be told apart. -/
theorem Node.quietly_evaluateWith (hresembles : left.pool.Resembles current right.pool)
    (henvironment : setting'.environment = setting.environment) (deeper deeper' : Deeper)
    (node : Node) (hquiet : node.Quiet setting.environment) :
    Quietly left right (fun value => node.Untabled setting.environment → value.Untabled)
      (node.evaluateWith deeper setting current) (node.evaluateWith deeper' setting' current) := by
  cases node with
  | literal value => exact quietly_pure id
  | parameter name => exact quietly_fail _
  | unary operator operand =>
    refine (Node.quietly_evaluateWith hresembles henvironment deeper deeper' operand hquiet).bind
      fun value _ => ?_
    exact (quietly_combineOne hresembles operator value).mono fun _ hvalue _ => hvalue
  | binary operator first second =>
    refine (Node.quietly_evaluateWith hresembles henvironment deeper deeper' first hquiet.1).bind
      fun value _ => ?_
    have hsecond := Node.quietly_evaluateWith hresembles henvironment deeper deeper' second hquiet.2
    exact (quietly_combine hresembles hsecond.any operator value).mono fun _ hvalue _ => hvalue
  | call function arguments =>
    have harguments := quietArguments_argumentsWith hresembles henvironment deeper deeper' arguments
      hquiet.2
    exact (Function.quietly_apply hresembles harguments hquiet.1).mono fun _ hvalue _ => hvalue
  | test predicate arguments =>
    have harguments := quietArguments_argumentsWith hresembles henvironment deeper deeper' arguments
      hquiet
    exact (Predicate.quietly_apply hresembles harguments predicate).bind fun _ _ =>
      quietly_pure fun _ => trivial
  | array elements =>
    exact (quietly_elementsWith hresembles henvironment deeper deeper' elements hquiet).bind
      fun _ hvalues => quietly_pure hvalues
  | tableName name =>
    rw [Node.evaluateWith, Node.evaluateWith, henvironment]
    exact quietly_pure id
  | index target position =>
    obtain ⟨huntabled, htarget, hposition⟩ := hquiet
    refine (Node.quietly_evaluateWith hresembles henvironment deeper deeper' target htarget).bind
      fun value hvalue => ?_
    refine (Node.quietly_evaluateWith hresembles henvironment deeper deeper' position
      hposition).bind fun place _ => ?_
    exact (quietly_valueAt hresembles (hvalue huntabled) place deeper deeper' setting setting'
      current).mono fun _ hresult _ => hresult
  | group group => exact quietly_pure fun _ => trivial
  | lambda parameter body => exact quietly_nextMark.bind fun _ _ => quietly_pure fun _ => trivial
  | procedure | pipe | command => exact hquiet.elim

theorem quietArguments_argumentsWith (hresembles : left.pool.Resembles current right.pool)
    (henvironment : setting'.environment = setting.environment) (deeper deeper' : Deeper)
    (nodes : List Node) (hquiet : AllQuiet setting.environment nodes) :
    QuietArguments left right current (argumentsWith deeper setting nodes)
      (argumentsWith deeper' setting' nodes) := by
  cases nodes with
  | nil => exact List.Forall₂.nil
  | cons node rest =>
    exact List.Forall₂.cons
      (Node.quietly_evaluateWith hresembles henvironment deeper deeper' node hquiet.1).any
      (quietArguments_argumentsWith hresembles henvironment deeper deeper' rest hquiet.2)

theorem quietly_elementsWith (hresembles : left.pool.Resembles current right.pool)
    (henvironment : setting'.environment = setting.environment) (deeper deeper' : Deeper)
    (nodes : List Node) (hquiet : AllQuiet setting.environment nodes) :
    Quietly left right
      (fun values => AllNodesUntabled setting.environment nodes → AllUntabled values)
      (elementsWith deeper setting nodes current)
      (elementsWith deeper' setting' nodes current) := by
  cases nodes with
  | nil =>
    rw [elementsWith, elementsWith]
    exact quietly_pure fun _ => trivial
  | cons node rest =>
    rw [elementsWith, elementsWith]
    refine (Node.quietly_evaluateWith hresembles henvironment deeper deeper' node hquiet.1).bind
      fun value hvalue => ?_
    refine (quietly_elementsWith hresembles henvironment deeper deeper' rest hquiet.2).bind
      fun values hvalues => ?_
    exact quietly_pure fun huntabled => ⟨hvalue huntabled.1, hvalues huntabled.2⟩

end

/-- Evaluating a quiet expression gives the same in worlds that cannot be told apart. -/
theorem Node.quietly_evaluate (hresembles : left.pool.Resembles current right.pool)
    (henvironment : setting'.environment = setting.environment) {node : Node}
    (hquiet : node.Quiet setting.environment) :
    Quietly left right (fun _ => True) (node.evaluate setting current)
      (node.evaluate setting' current) :=
  (Node.quietly_evaluateWith hresembles henvironment _ _ node hquiet).any

end

end Patchwork
