import Patchwork.Proofs.FieldSetting.Quiet
import Patchwork.Proofs.Horizon.Runs

/-!
# Quiet lambdas and later points

A lambda whose body is quiet is called without any effect but on the supply of marks, and a call
sees of the records what its body does.

While records are being written the pool grows and marks are given.  A quiet expression that is
evaluated then gives what it gave before, apart from the marks that are given on the way, as long
as the fields of its current record have not been written.  The later point is compared with a
relocation of the earlier one: the places and marks that have been taken in between are skipped.
-/

namespace Patchwork

/-! ## Calls of quiet lambdas -/

open Agree Eval

section

variable {left right : World} {current : Option RecordRef} {setting setting' : Setting}
  {Result : Type} {holds : Result → Prop}

theorem quietly_insideLambda (node : Node) {first second : Eval Result}
    (hquietly : Quietly left right holds first second) :
    Quietly left right holds (insideLambda node first) (insideLambda node second) := by
  refine Computations.of_tryCatch hquietly fun fault => ?_
  cases fault with
  | evaluation cause => exact Computations.of_throw _
  | _ => exact Computations.of_throw _

theorem Scope.quietly_value (scope : Scope) (name : String) :
    Quietly left right (fun _ => True) (scope.value name) (scope.value name) := by
  unfold value
  cases scope.get? name with
  | none => exact quietly_fail _
  | some value => exact quietly_pure trivial

/-- Arguments that are values already. -/
theorem quietArguments_values (values : List Value) :
    QuietArguments left right current (values.map fun value _ => return value)
      (values.map fun value _ => return value) := by
  unfold QuietArguments
  induction values with
  | nil => exact List.Forall₂.nil
  | cons value rest ih => exact List.Forall₂.cons (quietly_pure trivial) ih

mutual

/-- Evaluating a quiet expression in a scope changes nothing but the supply of marks, and gives
the same in worlds that cannot be told apart. -/
theorem Node.quietly_evaluateIn (hresembles : left.pool.Resembles current right.pool)
    (henvironment : setting'.environment = setting.environment) (deeper deeper' : Deeper)
    (scope : Scope) (node : Node) (hquiet : node.Quiet setting.environment) :
    Quietly left right (fun _ => True) (node.evaluateIn deeper setting scope current)
      (node.evaluateIn deeper' setting' scope current) := by
  have hwithout : Quietly left right (fun _ => True)
      (insideLambda node (node.evaluateWith deeper setting current))
      (insideLambda node (node.evaluateWith deeper' setting' current)) :=
    quietly_insideLambda node
      (Node.quietly_evaluateWith hresembles henvironment deeper deeper' node hquiet).any
  cases node with
  | parameter name => exact scope.quietly_value name
  | unary operator operand =>
    exact (Node.quietly_evaluateIn hresembles henvironment deeper deeper' scope operand
      hquiet).bind fun value _ => (quietly_combineOne hresembles operator value).any
  | binary operator first second =>
    refine (Node.quietly_evaluateIn hresembles henvironment deeper deeper' scope first
      hquiet.1).bind fun value _ => ?_
    exact (quietly_combine hresembles (Node.quietly_evaluateIn hresembles henvironment deeper
      deeper' scope second hquiet.2) operator value).any
  | call function arguments =>
    refine (quietly_valuesIn hresembles henvironment deeper deeper' scope arguments
      hquiet.2).bind fun values _ => ?_
    exact (Function.quietly_apply hresembles (quietArguments_values values) hquiet.1).any
  | array elements =>
    exact (quietly_elementsIn hresembles henvironment deeper deeper' scope elements hquiet).bind
      fun _ _ => quietly_pure trivial
  | _ => exact hwithout

theorem quietly_elementsIn (hresembles : left.pool.Resembles current right.pool)
    (henvironment : setting'.environment = setting.environment) (deeper deeper' : Deeper)
    (scope : Scope) (nodes : List Node) (hquiet : AllQuiet setting.environment nodes) :
    Quietly left right (fun _ => True) (elementsIn deeper setting scope nodes current)
      (elementsIn deeper' setting' scope nodes current) := by
  cases nodes with
  | nil => exact quietly_pure trivial
  | cons node rest =>
    have hrest := quietly_elementsIn hresembles henvironment deeper deeper' scope rest hquiet.2
    have hevaluated : ∀ first second : Eval Value, Quietly left right (fun _ => True) first second →
        Quietly left right (fun _ => True)
          (do return (← first) :: (← elementsIn deeper setting scope rest current))
          (do return (← second) :: (← elementsIn deeper' setting' scope rest current)) :=
      fun _ _ hfirst => hfirst.bind fun _ _ => hrest.bind fun _ _ => quietly_pure trivial
    have hnode := Node.quietly_evaluateIn hresembles henvironment deeper deeper' scope node hquiet.1
    cases node with
    | lambda parameter body =>
      exact hevaluated _ _ (quietly_nextMark.bind fun _ _ => quietly_pure trivial)
    | _ => exact hevaluated _ _ hnode

theorem quietly_valuesIn (hresembles : left.pool.Resembles current right.pool)
    (henvironment : setting'.environment = setting.environment) (deeper deeper' : Deeper)
    (scope : Scope) (nodes : List Node) (hquiet : AllQuiet setting.environment nodes) :
    Quietly left right (fun _ => True) (valuesIn deeper setting scope nodes current)
      (valuesIn deeper' setting' scope nodes current) := by
  cases nodes with
  | nil => exact quietly_pure trivial
  | cons node rest =>
    refine (Node.quietly_evaluateIn hresembles henvironment deeper deeper' scope node
      hquiet.1).bind fun value _ => ?_
    exact (quietly_valuesIn hresembles henvironment deeper deeper' scope rest hquiet.2).bind
      fun _ _ => quietly_pure trivial

end

/-- Calling a closure with a quiet body gives the same in worlds that cannot be told apart. -/
theorem Closure.quietly_call (closure : Closure)
    (hresembles : left.pool.Resembles closure.record right.pool)
    (henvironment : setting'.environment = setting.environment)
    (hquiet : closure.body.Quiet setting.environment) (arguments : List Value) :
    Quietly left right (fun _ => True) (closure.call setting arguments)
      (closure.call setting' arguments) := by
  have hcalled : ∀ deeper deeper' : Deeper, Quietly left right (fun _ => True)
      (closure.callWith deeper setting arguments) (closure.callWith deeper' setting' arguments) := by
    intro deeper deeper'
    unfold callWith
    split
    · exact (Node.quietly_evaluateIn hresembles henvironment deeper deeper' _ closure.body
        hquiet).bind fun _ _ => quietly_pure trivial
    · exact quietly_fail _
  exact hcalled _ _

end

theorem Pool.Resembles.refl (current : Option RecordRef) (pool : Pool) :
    pool.Resembles current pool :=
  ⟨fun _ => rfl, fun _ => rfl, fun _ => rfl, fun _ _ => rfl⟩

/-! ## Skipping places and marks -/

/-- The horizon whose relocation skips some places and some marks. -/
def Horizon.shifting (places marks furtherPlaces furtherMarks : Nat) : Horizon where
  relocation := {
    loaded := []
    pristine := {}
    ref := fun ref => if ref.index < places then ref else ⟨ref.index + furtherPlaces⟩
    mark := fun given => if given ≤ marks then given else given + furtherMarks
    ref_injective := by
      rintro ⟨first⟩ ⟨second⟩ hsame
      dsimp only at hsame
      split at hsame <;> split at hsame <;> simp only [RecordRef.mk.injEq] at hsame ⊢ <;> omega
    mark_injective := by
      intro first second hsame
      dsimp only at hsame
      split at hsame <;> split at hsame <;> omega
    mark_zero := if_pos (Nat.zero_le marks) }
  places := places
  marks := marks
  ref_eq _ hless := if_pos hless
  mark_eq _ hgiven := if_pos hgiven
  loaded_eq := rfl

/-- The records of a pool, and behind them the further ones of another pool. -/
def Pool.extendedTo (pool other : Pool) : Pool :=
  ⟨other.records.mapIdx fun index record =>
    if index < pool.records.size then pool.get ⟨index⟩ else record⟩

namespace Pool

variable {pool other : Pool}

theorem size_extendedTo : (pool.extendedTo other).records.size = other.records.size := by
  simp [extendedTo]

theorem get_extendedTo_of_holds (hgrown : pool.records.size ≤ other.records.size)
    {ref : RecordRef} (hheld : pool.Holds ref) : (pool.extendedTo other).get ref = pool.get ref := by
  have hless : ref.index < pool.records.size := hheld
  rw [get, extendedTo, Array.getD_eq_getD_getElem?, Array.getElem?_mapIdx,
    Array.getElem?_eq_getElem (Nat.lt_of_lt_of_le hless hgrown), Option.map_some, if_pos hless]
  rfl

theorem get_extendedTo_of_not_holds {ref : RecordRef} (hnew : ¬ pool.Holds ref) :
    (pool.extendedTo other).get ref = other.get ref := by
  have hbeyond : ¬ ref.index < pool.records.size := hnew
  rw [get, extendedTo, get, Array.getD_eq_getD_getElem?, Array.getD_eq_getD_getElem?,
    Array.getElem?_mapIdx]
  cases other.records[ref.index]? with
  | none => rfl
  | some record => rw [Option.map_some, if_neg hbeyond]

end Pool

/-! ## Later points -/

/-- A later point of a run at which the fields of the current record, and of every record how it
is called, its identifier and its links, are what they were. -/
structure World.Follows (current : Option RecordRef) (before during : World) : Prop where
  places : before.pool.records.size ≤ during.pool.records.size
  marks : before.marks ≤ during.marks
  held : ∀ ref ∈ current, before.pool.Holds ref
  label : ∀ ref, before.pool.Holds ref → during.pool.label ref = before.pool.label ref
  id : ∀ ref, before.pool.Holds ref → (during.pool.get ref).id = (before.pool.get ref).id
  links : ∀ ref, before.pool.Holds ref → (during.pool.get ref).links = (before.pool.get ref).links
  fields : ∀ ref ∈ current, (during.pool.get ref).fields = (before.pool.get ref).fields

/-- Marks have been given, and nothing else has happened. -/
def World.Marked (before after : World) : Prop :=
  before.marks ≤ after.marks ∧ after = { before with marks := after.marks }

namespace World.Marked

variable {before between after : World} {current : Option RecordRef}

theorem refl (world : World) : world.Marked world :=
  ⟨Nat.le_refl _, rfl⟩

theorem of_le {marks : Nat} (hmarks : before.marks ≤ marks) :
    before.Marked { before with marks := marks } :=
  ⟨hmarks, rfl⟩

theorem pool (hmarked : before.Marked after) : after.pool = before.pool := by
  rw [hmarked.2]

theorem active (hmarked : before.Marked after) : after.active = before.active := by
  rw [hmarked.2]

theorem trans (hfirst : before.Marked between) (hsecond : between.Marked after) :
    before.Marked after := by
  refine ⟨Nat.le_trans hfirst.1 hsecond.1, ?_⟩
  rw [hsecond.2, hfirst.2]

end World.Marked

theorem World.Follows.marked {before during later : World} {current : Option RecordRef}
    (hfollows : before.Follows current during) (hmarked : during.Marked later) :
    before.Follows current later := by
  rw [hmarked.2]
  exact { hfollows with marks := Nat.le_trans hfollows.marks hmarked.1 }

/-- The earlier point, moved to where places and marks are at the later one. -/
def World.movedTo (before during : World) : Horizon :=
  .shifting before.pool.records.size before.marks
    (during.pool.records.size - before.pool.records.size) (during.marks - before.marks)

/-- Two points of a run, with marks that correspond. -/
inductive World.Alongside (relocation : Relocation) (before during : World) :
    World → World → Prop
  | marked (marks later : Nat)
    (hmarks : ∀ offset, relocation.mark (marks + 1 + offset) = later + 1 + offset) :
    Alongside relocation before during { before with marks := marks }
      { during with marks := later }

/-- What an evaluation gives at the later point it gives at the earlier one, and it changes nothing
but the supply of marks. -/
theorem Eval.yields_of_alongside {relocation : Relocation} {before during last : World}
    {Result Other : Type} {related : Result → Other → Prop} {first : Eval Result}
    {second : Eval Other}
    (halong : Computations (World.Alongside relocation before during) related first second)
    {marks later : Nat} (hmarks : ∀ offset, relocation.mark (marks + 1 + offset) = later + 1 + offset)
    {other : Other} (hyields : second.Yields { during with marks := later } other last) :
    ∃ result given taken, first.Yields { before with marks := marks } result
        { before with marks := given } ∧
      last = { during with marks := taken } ∧ related result other ∧
      ∀ offset, relocation.mark (given + 1 + offset) = taken + 1 + offset := by
  obtain ⟨houtcomes, hafter⟩ := halong.run _ _ (.marked marks later hmarks)
  rw [Yields] at hyields
  rw [hyields] at houtcomes hafter
  rcases hrun : first.run { before with marks := marks } with ⟨outcome, after⟩
  rw [hrun] at houtcomes hafter
  cases hafter with
  | marked given taken hgiven =>
    cases houtcomes with
    | ok hrelated => exact ⟨_, given, taken, hrun, rfl, hrelated, hgiven⟩

/-- What an evaluation gives at the earlier point it gives at the later one. -/
theorem Eval.exists_yields_of_alongside {relocation : Relocation} {before during after : World}
    {Result Other : Type} {related : Result → Other → Prop} {first : Eval Result}
    {second : Eval Other}
    (halong : Computations (World.Alongside relocation before during) related first second)
    {marks later : Nat} (hmarks : ∀ offset, relocation.mark (marks + 1 + offset) = later + 1 + offset)
    {result : Result} (hyields : first.Yields { before with marks := marks } result after) :
    ∃ other taken, second.Yields { during with marks := later } other
        { during with marks := taken } ∧ related result other := by
  obtain ⟨houtcomes, hafter⟩ := halong.run _ _ (.marked marks later hmarks)
  rw [Yields] at hyields
  rw [hyields] at houtcomes hafter
  rcases hrun : second.run { during with marks := later } with ⟨outcome, last⟩
  rw [hrun] at houtcomes hafter
  cases hafter with
  | marked given taken hgiven =>
    cases houtcomes with
    | ok hrelated => exact ⟨_, taken, hrun, hrelated⟩

namespace World

variable {before during : World}

theorem covers_movedTo (before during : World) :
    (before.movedTo during).Covers before.pool before.marks :=
  ⟨Nat.le_refl _, Nat.le_refl _⟩

/-- The marks that are given next correspond. -/
theorem mark_movedTo (hmarks : before.marks ≤ during.marks) (offset : Nat) :
    (before.movedTo during).relocation.mark (before.marks + 1 + offset) =
      during.marks + 1 + offset := by
  have hmoved : (before.movedTo during).relocation.mark (before.marks + 1 + offset) =
      before.marks + 1 + offset + (during.marks - before.marks) :=
    if_neg (by omega)
  rw [hmoved]
  omega

/-- The world at the earlier point with the records that have been made since. -/
def extendedTo (before during : World) : World :=
  { before with
    pool := before.pool.extendedTo during.pool
    active := before.active.map (Mod.relocate (before.movedTo during).relocation) }

theorem pools_extendedTo (hgrown : before.pool.records.size ≤ during.pool.records.size)
    (hwithin : before.pool.Within (before.movedTo during)) :
    (before.movedTo during).relocation.Pools before.pool (before.extendedTo during).pool where
  get ref := by
    rw [hwithin ref]
    by_cases hheld : before.pool.Holds ref
    · rw [(before.covers_movedTo during).ref hheld]
      exact Pool.get_extendedTo_of_holds hgrown hheld
    · rw [Pool.get_of_not_holds hheld]
      have hmoved : (before.movedTo during).relocation.ref ref = ⟨ref.index +
          (during.pool.records.size - before.pool.records.size)⟩ := if_neg hheld
      have hless : ¬ ref.index < before.pool.records.size := hheld
      rw [hmoved]
      refine Pool.get_of_not_holds fun hnew => ?_
      have hindex : ref.index + (during.pool.records.size - before.pool.records.size) <
          (before.pool.extendedTo during.pool).records.size := hnew
      rw [Pool.size_extendedTo] at hindex
      omega
  next offset := by
    have hsize : (before.extendedTo during).pool.records.size = during.pool.records.size :=
      Pool.size_extendedTo
    have hmoved : (before.movedTo during).relocation.ref ⟨before.pool.records.size + offset⟩ =
        ⟨before.pool.records.size + offset +
          (during.pool.records.size - before.pool.records.size)⟩ :=
      if_neg (by simp)
    rw [hmoved]
    rw [hsize, RecordRef.mk.injEq]
    omega
  kept _ hloaded := nomatch hloaded

theorem Follows.resembles {current : Option RecordRef} (hfollows : Follows current before during) :
    (before.extendedTo during).pool.Resembles current during.pool where
  label ref := by
    by_cases hheld : before.pool.Holds ref
    · rw [hfollows.label ref hheld, Pool.label, Pool.label]
      exact congrArg Record.label (Pool.get_extendedTo_of_holds hfollows.places hheld).symm
    · exact congrArg Record.label (Pool.get_extendedTo_of_not_holds hheld).symm
  id ref := by
    by_cases hheld : before.pool.Holds ref
    · rw [hfollows.id ref hheld]
      exact congrArg Record.id (Pool.get_extendedTo_of_holds hfollows.places hheld).symm
    · exact congrArg Record.id (Pool.get_extendedTo_of_not_holds hheld).symm
  links ref := by
    by_cases hheld : before.pool.Holds ref
    · rw [hfollows.links ref hheld]
      exact congrArg Record.links (Pool.get_extendedTo_of_holds hfollows.places hheld).symm
    · exact congrArg Record.links (Pool.get_extendedTo_of_not_holds hheld).symm
  fields ref hcurrent := by
    rw [hfollows.fields ref hcurrent]
    exact congrArg Record.fields
      (Pool.get_extendedTo_of_holds hfollows.places (hfollows.held ref hcurrent)).symm

end World

/-! ## Evaluations at both points -/

/-- All records and everything that is defined are within each horizon that covers the records
and the marks that there are. -/
def Patcher.Grounded (state : Patcher) : Prop :=
  ∀ horizon, state.CoveredBy horizon → state.Within horizon

/-- After any lines nothing refers to records and marks that there are not. -/
theorem Patcher.grounded_afterLines {patcher : Patcher}
    (hmarked : ∀ ref, patcher.world.pool.Holds ref →
      (patcher.world.pool.get ref).MarkedWithin patcher.world.marks)
    (mod : Mod) (lines : List String) : (patcher.afterLines mod lines).Grounded := by
  intro horizon hcovers
  have hstays := staysTo_executeLines 1 0 lines (patcher.reset.start mod)
  refine hstays.within horizon trivial ⟨fun ref => ?_, ⟨?_, ?_⟩⟩ hcovers
  · have hbefore : horizon.Covers patcher.world.pool patcher.world.marks :=
      hstays.grown.covers hcovers
    change (patcher.world.pool.get ref).Within horizon
    by_cases hheld : patcher.world.pool.Holds ref
    · exact hmarked ref hheld _ fun given hgiven =>
        horizon.mark_eq given (Nat.le_trans hgiven hbefore.marks)
    · rw [Pool.get_of_not_holds hheld]
      rfl
  · exact List.forall_mem_nil _
  · exact List.forall_mem_nil _

/-- A quiet expression that refers to nothing beyond the records and marks that there are. -/
structure Node.QuietAt (state : Patcher) (node : Node) : Prop where
  quiet : node.Quiet state.environment
  within : ∀ during, node.Within (state.world.movedTo during)

section

variable {state : Patcher} {during : World} {current : Option RecordRef}

/-- The setting at the earlier point, moved to the later one. -/
def Patcher.settingAt (state : Patcher) (during : World) : Setting :=
  { environment := state.environment
    repository := state.repository.relocate (state.world.movedTo during).relocation }

variable (hgrounded : state.Grounded) (hfollows : state.world.Follows current during)

include hgrounded

theorem Patcher.Grounded.within_movedTo (during : World) :
    state.Within (state.world.movedTo during) :=
  hgrounded _ (state.world.covers_movedTo during)

/-- An expression that has been read refers to nothing beyond the records and marks there are. -/
theorem Patcher.Grounded.within_ofText {text : String} {node : Node}
    (hread : Node.ofText state.names text = .ok node) (during : World) :
    node.Within (state.world.movedTo during) :=
  Node.within_ofText (hgrounded.within_movedTo during).environment
    (state.world.covers_movedTo during).labels hread

theorem Patcher.Grounded.quietAt {text : String} {node : Node}
    (hread : Node.ofText state.names text = .ok node) (hquiet : node.Quiet state.environment) :
    node.QuietAt state :=
  ⟨hquiet, hgrounded.within_ofText hread⟩

theorem Patcher.Grounded.settings (during : World) :
    (state.world.movedTo during).relocation.Settings state.setting (state.settingAt during) :=
  ⟨(hgrounded.within_movedTo during).environment.environments, rfl⟩

include hfollows

/-- What is relocated to the later point, and is quiet there, goes alongside. -/
theorem Eval.alongside {Result Other : Type} {related : Result → Other → Prop}
    {first : Eval Result} {second third : Eval Other}
    (hstill : Quietly state.world state.world (fun _ => True) first first)
    (hmoved : Computations (state.world.movedTo during).relocation.Worlds related first second)
    (hquietly : Quietly (state.world.extendedTo during) during (fun _ => True) second third) :
    Computations (World.Alongside (state.world.movedTo during).relocation state.world during)
      related first third where
  run := by
    rintro _ _ ⟨marks, later, hmarks⟩
    have hworlds : (state.world.movedTo during).relocation.Worlds
        { state.world with marks := marks }
        { state.world.extendedTo during with marks := later } := by
      refine ⟨World.pools_extendedTo hfollows.places (hgrounded.within_movedTo during).pool, ?_,
        rfl, rfl, hmarks⟩
      change Option.Rel _ state.world.active (state.world.active.map _)
      cases state.world.active with
      | none => exact .none
      | some mod => exact .some ⟨rfl, fun _ _ hloaded => nomatch hloaded⟩
    obtain ⟨houtcomes, hafter⟩ := hmoved.run _ _ hworlds
    obtain ⟨-, hleft⟩ := hstill.run _ _ (.marked marks)
    obtain ⟨hsame, hright⟩ := hquietly.run _ _ (.marked later)
    generalize first.run { state.world with marks := marks } = ran at houtcomes hafter hleft ⊢
    generalize second.run { state.world.extendedTo during with marks := later } = moved
      at houtcomes hafter hsame hright
    generalize third.run { during with marks := later } = last at hsame hright ⊢
    obtain ⟨outcome, _⟩ := ran
    obtain ⟨outcome', _⟩ := moved
    obtain ⟨outcome'', _⟩ := last
    cases hleft
    cases hright
    refine ⟨?_, .marked _ _ hafter.marks⟩
    cases houtcomes with
    | error fault =>
      cases hsame
      exact .error fault
    | ok hrelated =>
      cases hsame with
      | ok hresult => exact .ok (hresult.1 ▸ hrelated)

/-- A quiet expression gives corresponding values at both points. -/
theorem Node.alongside_evaluate {node : Node} (hnode : node.QuietAt state) :
    Computations (World.Alongside (state.world.movedTo during).relocation state.world during)
      (state.world.movedTo during).relocation.Values (node.evaluate state.setting current)
      (node.evaluate state.setting current) := by
  have hcurrent : Currently (state.world.movedTo during) current :=
    fun ref href => (state.world.covers_movedTo during).ref (hfollows.held ref href)
  have hnodes : (state.world.movedTo during).relocation.Nodes node node :=
    ⟨(hnode.within during).symm, Node.free_of_none rfl node⟩
  have hcurrents : (state.world.movedTo during).relocation.Currents current current :=
    ⟨hcurrent.map_eq.symm, fun _ _ => Relocation.free_of_none rfl _⟩
  have hmoved := Node.evaluate_relocate (hgrounded.settings during) hnodes _ _ hcurrents
  have henvironment : state.setting.environment = (state.settingAt during).environment := rfl
  have hstill : Quietly state.world state.world (fun _ => True)
      (node.evaluate state.setting current) (node.evaluate state.setting current) :=
    Node.quietly_evaluate (.refl current state.world.pool) rfl hnode.quiet
  have hquietly : Quietly (state.world.extendedTo during) during (fun _ => True)
      (node.evaluate (state.settingAt during) current) (node.evaluate state.setting current) :=
    Node.quietly_evaluate hfollows.resembles henvironment hnode.quiet
  exact Eval.alongside hgrounded hfollows hstill hmoved hquietly

/-- A lambda with a quiet body gives corresponding values for corresponding ones at both points. -/
theorem Closure.alongside_call {parameter : String} {body : Node} {identity identity' : Nat}
    {value value' : Value} (hbody : body.QuietAt state)
    (hidentity : identity' = (state.world.movedTo during).relocation.mark identity)
    (hvalues : (state.world.movedTo during).relocation.Values value value') :
    Computations (World.Alongside (state.world.movedTo during).relocation state.world during)
      (state.world.movedTo during).relocation.Values
      ((Closure.mk identity parameter body current).call state.setting [value])
      ((Closure.mk identity' parameter body current).call state.setting [value']) := by
  have hcurrent : Currently (state.world.movedTo during) current :=
    fun ref href => (state.world.covers_movedTo during).ref (hfollows.held ref href)
  have hclosures : (state.world.movedTo during).relocation.Closures
      ⟨identity, parameter, body, current⟩ ⟨identity', parameter, body, current⟩ :=
    ⟨hidentity, rfl, ⟨(hbody.within during).symm, Node.free_of_none rfl body⟩,
      ⟨hcurrent.map_eq.symm, fun _ _ => Relocation.free_of_none rfl _⟩⟩
  have hmoved := (deeperAt_relocate (hgrounded.settings during) nestingLimit).call _ _ _ _ hclosures
    (.cons hvalues .nil)
  have henvironment : state.setting.environment = (state.settingAt during).environment := rfl
  have hstill : Quietly state.world state.world (fun _ => True)
      ((Closure.mk identity parameter body current).call state.setting [value])
      ((Closure.mk identity parameter body current).call state.setting [value]) :=
    Closure.quietly_call _ (.refl current state.world.pool) rfl hbody.quiet _
  have hquietly : Quietly (state.world.extendedTo during) during (fun _ => True)
      ((Closure.mk identity' parameter body current).call (state.settingAt during) [value'])
      ((Closure.mk identity' parameter body current).call state.setting [value']) :=
    Closure.quietly_call ⟨identity', parameter, body, current⟩ hfollows.resembles henvironment
      hbody.quiet _
  exact Eval.alongside hgrounded hfollows hstill hmoved hquietly

/-- Corresponding values are displayed alike. -/
theorem World.Follows.display_eq {value value' : Value}
    (hvalues : (state.world.movedTo during).relocation.Values value value') :
    value'.display during.pool.label = value.display state.world.pool.label := by
  refine hvalues.display fun ref => ?_
  have hpools := World.pools_extendedTo hfollows.places (hgrounded.within_movedTo during).pool
  rw [hfollows.resembles.label, hpools.label_ref]

end

end Patchwork
