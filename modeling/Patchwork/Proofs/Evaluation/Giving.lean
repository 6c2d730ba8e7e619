import Patchwork.Proofs.Evaluation.Outcomes
import Patchwork.Proofs.Evaluation.Substitution

/-!
# What evaluations give

A value leads to expressions that have not been evaluated yet: to the bodies of the
closures in it and to the entries of the tables in it.  What a built-in gives leads
nowhere, and a procedure does not depend on how closures are called that it is not given.
-/

namespace Patchwork

namespace Eval

variable {Result Other Item : Type}

/-- Whatever the evaluation gives has a property. -/
def Gives (holds : Result → Prop) (evaluation : Eval Result) : Prop :=
  ∀ before result after, evaluation.Yields before result after → holds result

/-- Two evaluations are the same, and what they give has a property. -/
structure Coincide (holds : Result → Prop) (left right : Eval Result) : Prop where
  same : right = left
  gives : Gives holds left

variable {holds weaker : Result → Prop} {holdsNext : Other → Prop}
variable {evaluation left right : Eval Result}

theorem eq_of_run_eq (hrun : ∀ before, left.run before = right.run before) : left = right :=
  funext hrun

namespace Gives

theorem mono (hgives : Gives holds evaluation) (hweaker : ∀ result, holds result → weaker result) :
    Gives weaker evaluation :=
  fun before result after hyields => hweaker result (hgives before result after hyields)

theorem of_pure {result : Result} (hresult : holds result) : Gives holds (pure result) := by
  intro before given after hyields
  obtain ⟨rfl, -⟩ := yields_pure.mp hyields
  exact hresult

theorem of_throw (fault : Fault) : Gives holds (throw fault) :=
  fun _ _ _ hyields => absurd hyields not_yields_throw

theorem of_fail (fault : EvaluationFault) : Gives holds (fail fault : Eval Result) :=
  of_throw _

theorem of_fail_bind (fault : EvaluationFault) (next : Result → Eval Other) :
    Gives holdsNext (fail fault >>= next) := by
  intro before other after hyields
  obtain ⟨result, between, hresult, -⟩ := yields_bind.mp hyields
  exact absurd hresult not_yields_fail

theorem of_settle {outcome : Except Fault Result}
    (houtcome : ∀ result, outcome = .ok result → holds result) : Gives holds (settle outcome) :=
  fun _ result _ hyields => houtcome result (yields_settle.mp hyields).1

theorem of_labelled {compute : Labels → Except Fault Result}
    (hcompute : ∀ labels result, compute labels = .ok result → holds result) :
    Gives holds (labelled compute) :=
  fun before result _ hyields =>
    hcompute before.pool.label result (yields_labelled.mp hyields).1

theorem of_bind {next : Result → Eval Other} (hfirst : Gives holds evaluation)
    (hnext : ∀ result, holds result → Gives holdsNext (next result)) :
    Gives holdsNext (evaluation >>= next) := by
  intro before other after hyields
  obtain ⟨result, between, hresult, hother⟩ := yields_bind.mp hyields
  exact hnext result (hfirst _ _ _ hresult) _ _ _ hother

/-- Whatever the first step gives. -/
theorem of_any_bind {next : Result → Eval Other}
    (hnext : ∀ result, Gives holdsNext (next result)) : Gives holdsNext (evaluation >>= next) := by
  have hany : Gives (fun _ => True) evaluation := fun _ _ _ _ => trivial
  exact hany.of_bind fun result _ => hnext result

theorem of_insideLambda (node : Node) (hgives : Gives holds evaluation) :
    Gives holds (insideLambda node evaluation) :=
  fun before result after hyields =>
    hgives before result after ((sameYields_insideLambda node evaluation _ _ _).mp hyields)

theorem of_mapM {items : List Item} {step : Item → Eval Result}
    (hstep : ∀ item ∈ items, Gives holds (step item)) :
    Gives (fun results => ∀ result ∈ results, holds result) (items.mapM step) := by
  induction items with
  | nil => exact of_pure nofun
  | cons item rest ih =>
    rw [List.forall_mem_cons] at hstep
    rw [List.mapM_cons]
    exact hstep.1.of_bind fun first hfirst => (ih hstep.2).of_bind fun others hothers =>
      of_pure (List.forall_mem_cons.mpr ⟨hfirst, hothers⟩)

end Gives

/-- Two continuations that agree on whatever comes first. -/
theorem bind_congr_of_gives {next next' : Result → Eval Other} (hfirst : Gives holds evaluation)
    (hnext : ∀ result, holds result → next' result = next result) :
    evaluation >>= next' = evaluation >>= next := by
  refine eq_of_run_eq fun before => ?_
  rw [run_bind, run_bind]
  cases hrun : evaluation.run before with
  | mk outcome between =>
    cases outcome with
    | error fault => rfl
    | ok result =>
      dsimp only
      rw [hnext result (hfirst before result between hrun)]

theorem fail_bind_congr (fault : EvaluationFault) (next next' : Result → Eval Other) :
    fail fault >>= next' = fail fault >>= next := by
  have hnone : Gives (fun _ => False) (fail fault : Eval Result) := Gives.of_fail fault
  exact bind_congr_of_gives hnone fun _ hfalse => hfalse.elim

namespace Coincide

theorem of_gives (hgives : Gives holds evaluation) : Coincide holds evaluation evaluation :=
  ⟨rfl, hgives⟩

theorem mono (hcoincide : Coincide holds left right)
    (hweaker : ∀ result, holds result → weaker result) : Coincide weaker left right :=
  ⟨hcoincide.same, hcoincide.gives.mono hweaker⟩

theorem of_bind {next next' : Result → Eval Other} (hfirst : Coincide holds left right)
    (hnext : ∀ result, holds result → Coincide holdsNext (next result) (next' result)) :
    Coincide holdsNext (left >>= next) (right >>= next') where
  same := by
    rw [hfirst.same]
    exact bind_congr_of_gives hfirst.gives fun result hresult => (hnext result hresult).same
  gives := hfirst.gives.of_bind fun result hresult => (hnext result hresult).gives

theorem of_same_bind {next next' : Result → Eval Other}
    (hnext : ∀ result, Coincide holdsNext (next result) (next' result)) :
    Coincide holdsNext (evaluation >>= next) (evaluation >>= next') := by
  have hany : Coincide (fun _ => True) evaluation evaluation := of_gives fun _ _ _ _ => trivial
  exact hany.of_bind fun result _ => hnext result

theorem of_insideLambda (node : Node) (hcoincide : Coincide holds left right) :
    Coincide holds (insideLambda node left) (insideLambda node right) :=
  ⟨congrArg (insideLambda node) hcoincide.same, hcoincide.gives.of_insideLambda node⟩

theorem of_mapM {items : List Item} {step step' : Item → Eval Result}
    (hstep : ∀ item ∈ items, Coincide holds (step item) (step' item)) :
    Coincide (fun results => ∀ result ∈ results, holds result) (items.mapM step)
      (items.mapM step') where
  same := by
    induction items with
    | nil => rfl
    | cons item rest ih =>
      rw [List.forall_mem_cons] at hstep
      rw [List.mapM_cons, List.mapM_cons, ih hstep.2, hstep.1.same]
  gives := Gives.of_mapM fun item hitem => (hstep item hitem).gives

end Coincide

end Eval

open Eval

/-! ## Values and what they lead to -/

section

variable (bodies : Node → Prop) (tables : String → Prop)

mutual

/-- A value in which there are only closures with certain bodies and certain tables. -/
def Value.LeadsTo : Value → Prop
  | .array items => AllLeadTo items
  | .closure _ _ body _ => bodies body
  | .table name => tables name
  | _ => True

/-- Values in which there are only closures with certain bodies and certain tables. -/
def AllLeadTo : List Value → Prop
  | [] => True
  | item :: rest => item.LeadsTo ∧ AllLeadTo rest

end

end

variable {bodies widerBodies : Node → Prop} {tables widerTables : String → Prop}

theorem allLeadTo_iff {items : List Value} :
    AllLeadTo bodies tables items ↔ ∀ item ∈ items, item.LeadsTo bodies tables := by
  induction items with
  | nil => exact ⟨fun _ _ hitem => (nomatch hitem), fun _ => trivial⟩
  | cons item rest ih => rw [AllLeadTo, ih, List.forall_mem_cons]

mutual

theorem Value.LeadsTo.mono (hbodies : ∀ body, bodies body → widerBodies body)
    (htables : ∀ table, tables table → widerTables table) (value : Value)
    (hvalue : value.LeadsTo bodies tables) : value.LeadsTo widerBodies widerTables := by
  cases value with
  | array items => exact AllLeadTo.mono hbodies htables items hvalue
  | closure identity parameter body record => exact hbodies body hvalue
  | table name => exact htables name hvalue
  | _ => trivial

theorem AllLeadTo.mono (hbodies : ∀ body, bodies body → widerBodies body)
    (htables : ∀ table, tables table → widerTables table) (items : List Value)
    (hitems : AllLeadTo bodies tables items) : AllLeadTo widerBodies widerTables items := by
  cases items with
  | nil => trivial
  | cons item rest =>
    exact ⟨Value.LeadsTo.mono hbodies htables item hitems.1,
      AllLeadTo.mono hbodies htables rest hitems.2⟩

end

mutual

theorem Value.Data.leadsTo (value : Value) (hdata : value.Data) : value.LeadsTo bodies tables := by
  cases value with
  | array items => exact AllData.leadsTo items hdata
  | group | closure | table => exact hdata.elim
  | _ => trivial

theorem AllData.leadsTo (items : List Value) (hdata : AllData items) :
    AllLeadTo bodies tables items := by
  cases items with
  | nil => trivial
  | cons item rest => exact ⟨Value.Data.leadsTo item hdata.1, AllData.leadsTo rest hdata.2⟩

end

/-- Whatever an evaluation gives leads to certain bodies and tables only. -/
abbrev Eval.GivesLeading (bodies : Node → Prop) (tables : String → Prop) :
    Eval Value → Prop :=
  Gives (Value.LeadsTo bodies tables)

theorem gives_mark {value : Value} (hvalue : value.LeadsTo bodies tables) :
    GivesLeading bodies tables (mark value) := by
  unfold mark
  split
  · exact Gives.of_any_bind fun _ => Gives.of_pure trivial
  · exact Gives.of_pure hvalue

theorem gives_apply_marked {compute : Labels → Except Fault Value}
    (hdata : ∀ labels, Meets (compute labels) Value.Data) :
    GivesLeading bodies tables (labelled compute >>= mark) :=
  (Gives.of_labelled fun labels value hvalue => (hdata labels).gives value hvalue).of_bind
    fun _ hvalue => gives_mark hvalue.leadsTo

/-! ## Functions -/

namespace Function

variable {record : Option RecordRef} {arguments : List Argument}

theorem gives_cloneGroup (group : Group) (count : Int) :
    GivesLeading bodies tables (cloneGroup group count) := by
  unfold cloneGroup
  split
  · exact Gives.of_any_bind fun _ => Gives.of_any_bind fun _ => Gives.of_pure trivial
  · exact Gives.of_fail _

theorem gives_result (function : Function) :
    GivesLeading bodies tables (function.result record arguments) := by
  cases function with
  | getField =>
    refine Gives.of_any_bind fun ref => Gives.of_any_bind fun value => ?_
    refine Gives.of_any_bind fun name => Gives.of_any_bind fun current => ?_
    split
    · exact Gives.of_fail _
    · exact Gives.of_settle fun value hvalue => ((Value.meets_ofPlain _).gives value hvalue).leadsTo
  | toInt | toFloat | count =>
    exact Gives.of_any_bind fun _ => Gives.of_any_bind fun _ => Gives.of_pure trivial
  | min | max =>
    exact Gives.of_any_bind fun _ => Gives.of_any_bind fun _ =>
      Gives.of_pure (Value.data_ofNumber _).leadsTo
  | arrIndex =>
    refine Gives.of_any_bind fun first => Gives.of_any_bind fun items => ?_
    refine Gives.of_any_bind fun second => Gives.of_any_bind fun position => ?_
    dsimp only
    split
    · exact Gives.of_fail_bind _ _
    split
    · exact Gives.of_fail _
    · split
      · exact Gives.of_any_bind fun _ => Gives.of_pure trivial
      · exact Gives.of_any_bind fun _ => Gives.of_fail _
  | randomFloat =>
    exact Gives.of_any_bind fun _ => Gives.of_any_bind fun _ => Gives.of_pure trivial
  | randomBetweenInts =>
    refine Gives.of_any_bind fun first => Gives.of_any_bind fun low => ?_
    refine Gives.of_any_bind fun second => Gives.of_any_bind fun high => ?_
    dsimp only
    split
    · exact Gives.of_fail_bind _ _
    split
    · exact Gives.of_pure trivial
    · exact Gives.of_any_bind fun _ => Gives.of_any_bind fun _ => Gives.of_pure trivial
  | containsExact | containsFolded =>
    exact Gives.of_any_bind fun _ => Gives.of_any_bind fun _ => Gives.of_any_bind fun _ =>
      Gives.of_any_bind fun _ => Gives.of_pure trivial
  | clone =>
    exact Gives.of_any_bind fun _ => Gives.of_any_bind fun _ => Gives.of_any_bind fun _ =>
      Gives.of_any_bind fun _ => gives_cloneGroup _ _

theorem gives_apply (function : Function) :
    GivesLeading bodies tables (function.apply record arguments) :=
  (gives_result function).of_bind fun _ => gives_mark

end Function

/-! ## Procedures -/

/-- Two ways of calling closures that are the same for certain bodies and plain values. -/
def Caller.Agree (bodies : Node → Prop) (caller caller' : Caller) : Prop :=
  ∀ (closure : Closure) values, bodies closure.body → AllData values →
    caller' closure values = caller closure values

namespace Procedure

variable {caller caller' : Caller} (hcallers : Caller.Agree bodies caller caller')
variable {closure : Closure} {arguments : List Argument} {target source : RecordRef}

include hcallers

theorem transform_eq (hbody : bodies closure.body) :
    transform caller' closure = transform caller closure := by
  funext number
  unfold transform
  rw [hcallers closure [.integer number] hbody ⟨trivial, trivial⟩]

theorem validate_eq (hbody : bodies closure.body) :
    validate caller' closure = validate caller closure := by
  funext payload
  have hdata : AllData (payload.map .integer) := by
    rw [allData_iff]
    intro item hitem
    obtain ⟨number, -, rfl⟩ := List.mem_map.mp hitem
    trivial
  unfold validate
  rw [hcallers closure [.array (payload.map .integer)] hbody ⟨hdata, trivial⟩]

omit hcallers

theorem gives_closure {value : Value} (hvalue : value.LeadsTo bodies tables) (purpose : String) :
    Gives (fun closure : Closure => bodies closure.body)
      (labelled (value.expectClosure · purpose)) := by
  refine Gives.of_labelled fun labels closure hclosure => ?_
  cases value with
  | closure =>
    cases hclosure
    exact hvalue
  | _ => cases hclosure

theorem gives_array {value : Value} (hvalue : value.LeadsTo bodies tables) (purpose : String) :
    Gives (fun items => ∀ item ∈ items, item.LeadsTo bodies tables)
      (labelled (value.expectArray · purpose)) := by
  refine Gives.of_labelled fun labels items hitems => ?_
  rw [Value.expectArray_eq_ok.mp hitems] at hvalue
  exact allLeadTo_iff.mp hvalue

theorem gives_argument (name : String)
    (harguments : ∀ argument ∈ arguments, ∀ record, GivesLeading bodies tables (argument record))
    (position : Nat) (record : Option RecordRef) :
    GivesLeading bodies tables (Eval.argument name arguments position record) := by
  unfold Eval.argument
  split
  · rename_i argument hargument
    exact harguments argument (List.mem_of_getElem? hargument) record
  · exact Gives.of_fail _

include hcallers

theorem validatorArgument_eq {argument : Nat → Eval Value}
    (hargument : ∀ position, GivesLeading bodies tables (argument position)) :
    validatorArgument caller' arguments argument = validatorArgument caller arguments argument := by
  unfold validatorArgument
  split
  · rfl
  · refine bind_congr_of_gives (hargument 2) fun value hvalue => ?_
    refine bind_congr_of_gives (gives_closure hvalue _) fun closure hbody => ?_
    rw [validate_eq hcallers hbody]

variable
  (harguments : ∀ argument ∈ arguments, ∀ record, GivesLeading bodies tables (argument record))

include harguments

theorem onTarget_eq (procedure : Procedure) :
    procedure.onTarget caller' arguments target = procedure.onTarget caller arguments target := by
  have hargument := fun position =>
    gives_argument procedure.name harguments position (some target)
  cases procedure with
  | editExtraData =>
    refine congrArg (_ >>= ·) (funext fun first => congrArg (_ >>= ·) (funext fun category => ?_))
    refine bind_congr_of_gives (hargument 1) fun second hsecond => ?_
    refine bind_congr_of_gives (gives_array hsecond _) fun lambdas hlambdas => ?_
    refine bind_congr_of_gives (Gives.of_mapM fun item hitem =>
      gives_closure (hlambdas item hitem) _) fun closures hclosures => ?_
    have htransformers : closures.map (transform caller') = closures.map (transform caller) :=
      List.map_congr_left fun closure hclosure =>
        transform_eq hcallers (hclosures closure hclosure)
    rw [validatorArgument_eq hcallers hargument, htransformers]
  | _ => rfl

theorem setFromSource_eq (procedure : Procedure) :
    setFromSource caller' procedure arguments target source =
      setFromSource caller procedure arguments target source := by
  have hargument := gives_argument procedure.name harguments
  refine congrArg (_ >>= ·) (funext fun first => congrArg (_ >>= ·) (funext fun name => ?_))
  refine congrArg (_ >>= ·) (funext fun before => ?_)
  dsimp only
  split
  · exact fail_bind_congr _ _ _
  refine bind_congr_of_gives (hargument 2 (some source)) fun second hsecond => ?_
  refine bind_congr_of_gives (gives_closure hsecond _) fun closure hbody => ?_
  refine congrArg (_ >>= ·) (funext fun current => ?_)
  have hplain : Gives Value.Data (settle (Value.ofPlain ((current.field? name).getD .null))) :=
    Gives.of_settle fun value hvalue => (Value.meets_ofPlain _).gives value hvalue
  refine bind_congr_of_gives hplain fun value hvalue => ?_
  rw [hcallers closure [value] hbody ⟨hvalue, trivial⟩]

theorem onPair_eq (procedure : Procedure) :
    procedure.onPair caller' arguments target source =
      procedure.onPair caller arguments target source := by
  cases procedure with
  | setFieldFromOther => exact setFromSource_eq hcallers harguments _
  | _ => rfl

theorem apply_eq (procedure : Procedure) (targets : Group) (pairwise : Bool) :
    procedure.apply caller' arguments targets pairwise =
      procedure.apply caller arguments targets pairwise := by
  unfold apply
  simp only [onTarget_eq hcallers harguments, onPair_eq hcallers harguments]

end Procedure

end Patchwork
