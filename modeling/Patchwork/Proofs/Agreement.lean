import Mathlib.Data.List.Forall2
import Patchwork.Fault

/-!
# Computations that agree

Two runs of one program may start in states that differ in ways the program
cannot notice.  Two computations agree if from related states they fail alike or
give related results, and then their states are related again.  Computations
built from agreeing steps agree.
-/

namespace Patchwork

namespace Agree

variable {Left Right Left' Right' State State' : Type}

/-- The same fault, or related results. -/
inductive Outcomes (related : Left → Right → Prop) : Except Fault Left → Except Fault Right → Prop
  | ok {first : Left} {second : Right} (hrelated : related first second) :
      Outcomes related (.ok first) (.ok second)
  | error (fault : Fault) : Outcomes related (.error fault) (.error fault)

namespace Outcomes

variable {related : Left → Right → Prop} {relatedNext : Left' → Right' → Prop}

theorem mono {weaker : Left → Right → Prop} {left : Except Fault Left}
    {right : Except Fault Right} (houtcomes : Outcomes related left right)
    (hweaker : ∀ first second, related first second → weaker first second) :
    Outcomes weaker left right := by
  cases houtcomes with
  | ok hrelated => exact .ok (hweaker _ _ hrelated)
  | error fault => exact .error fault

theorem refl (outcome : Except Fault Left) : Outcomes Eq outcome outcome := by
  cases outcome with
  | ok result => exact .ok rfl
  | error fault => exact .error fault

theorem of_eq {left right : Except Fault Left} (heq : left = right) :
    Outcomes Eq left right := by
  rw [heq]
  exact refl right

theorem of_bind {left : Except Fault Left} {right : Except Fault Right}
    {next : Left → Except Fault Left'} {next' : Right → Except Fault Right'}
    (hfirst : Outcomes related left right)
    (hnext : ∀ first second, related first second →
      Outcomes relatedNext (next first) (next' second)) :
    Outcomes relatedNext (left >>= next) (right >>= next') := by
  cases hfirst with
  | ok hrelated => exact hnext _ _ hrelated
  | error fault => exact .error fault

theorem of_map {left : Except Fault Left} {right : Except Fault Right}
    {next : Left → Left'} {next' : Right → Right'} (hfirst : Outcomes related left right)
    (hnext : ∀ first second, related first second → relatedNext (next first) (next' second)) :
    Outcomes relatedNext (left.map next) (right.map next') := by
  cases hfirst with
  | ok hrelated => exact .ok (hnext _ _ hrelated)
  | error fault => exact .error fault

end Outcomes

/-! ## Computations that keep their effects when they fail -/

/-- From related states two computations give the same fault or related results,
and related states. -/
structure Computations (states : State → State' → Prop) (related : Left → Right → Prop)
    (left : ExceptT Fault (StateM State) Left) (right : ExceptT Fault (StateM State') Right) :
    Prop where
  run : ∀ before before', states before before' →
    Outcomes related (left.run before).1 (right.run before').1 ∧
      states (left.run before).2 (right.run before').2

namespace Computations

variable {states : State → State' → Prop}
variable {related : Left → Right → Prop} {relatedNext : Left' → Right' → Prop}
variable {left : ExceptT Fault (StateM State) Left}
variable {right : ExceptT Fault (StateM State') Right}

theorem mono {weaker : Left → Right → Prop} (hagree : Computations states related left right)
    (hweaker : ∀ first second, related first second → weaker first second) :
    Computations states weaker left right := by
  refine ⟨fun before before' hstates => ?_⟩
  obtain ⟨houtcomes, hafter⟩ := hagree.run before before' hstates
  exact ⟨houtcomes.mono hweaker, hafter⟩

theorem of_pure {first : Left} {second : Right} (hrelated : related first second) :
    Computations states related (pure first) (pure second) :=
  ⟨fun _ _ hstates => ⟨.ok hrelated, hstates⟩⟩

theorem of_throw (fault : Fault) :
    Computations states related (throw fault) (throw fault) :=
  ⟨fun _ _ hstates => ⟨.error fault, hstates⟩⟩

theorem of_lift {outcome : Except Fault Left} {outcome' : Except Fault Right}
    (houtcomes : Outcomes related outcome outcome') :
    Computations states related (liftM outcome) (liftM outcome') :=
  ⟨fun _ _ hstates => ⟨houtcomes, hstates⟩⟩

theorem of_get :
    Computations states states (get : ExceptT Fault (StateM State) State)
      (get : ExceptT Fault (StateM State') State') :=
  ⟨fun _ _ hstates => ⟨.ok hstates, hstates⟩⟩

theorem of_set {first : State} {second : State'} (hstates : states first second) :
    Computations states Eq (set first : ExceptT Fault (StateM State) PUnit)
      (set second : ExceptT Fault (StateM State') PUnit) :=
  ⟨fun _ _ _ => ⟨.ok rfl, hstates⟩⟩

theorem of_modify {change : State → State} {change' : State' → State'}
    (hchange : ∀ first second, states first second → states (change first) (change' second)) :
    Computations states Eq (modify change : ExceptT Fault (StateM State) PUnit)
      (modify change' : ExceptT Fault (StateM State') PUnit) :=
  ⟨fun before before' hstates => ⟨.ok rfl, hchange before before' hstates⟩⟩

theorem run_bind {Error : Type} (computation : ExceptT Error (StateM State) Left)
    (next : Left → ExceptT Error (StateM State) Left') (before : State) :
    (computation >>= next).run before =
      match computation.run before with
      | (.ok result, between) => (next result).run between
      | (.error fault, between) => (.error fault, between) := by
  rw [ExceptT.run_bind]
  simp only [bind, StateT.bind]
  cases computation.run before with
  | mk outcome between => cases outcome <;> rfl

theorem of_bind {next : Left → ExceptT Fault (StateM State) Left'}
    {next' : Right → ExceptT Fault (StateM State') Right'}
    (hfirst : Computations states related left right)
    (hnext : ∀ first second, related first second →
      Computations states relatedNext (next first) (next' second)) :
    Computations states relatedNext (left >>= next) (right >>= next') := by
  refine ⟨fun before before' hstates => ?_⟩
  obtain ⟨houtcomes, hbetween⟩ := hfirst.run before before' hstates
  rw [run_bind, run_bind]
  cases hleft : left.run before with
  | mk outcome between =>
    cases hright : right.run before' with
    | mk outcome' between' =>
      rw [hleft, hright] at houtcomes hbetween
      cases houtcomes with
      | error fault => exact ⟨.error fault, hbetween⟩
      | ok hrelated => exact (hnext _ _ hrelated).run between between' hbetween

theorem of_throw_bind (fault : Fault) (next : Left → ExceptT Fault (StateM State) Left')
    (next' : Right → ExceptT Fault (StateM State') Right') :
    Computations states relatedNext (throw fault >>= next) (throw fault >>= next') :=
  ⟨fun _ _ hstates => ⟨.error fault, hstates⟩⟩

theorem run_tryCatch {Error : Type} (computation : ExceptT Error (StateM State) Left)
    (handler : Error → ExceptT Error (StateM State) Left) (before : State) :
    (tryCatch computation handler).run before =
      match computation.run before with
      | (.ok result, between) => (.ok result, between)
      | (.error fault, between) => (handler fault).run between := by
  change (ExceptT.tryCatch computation handler).run before = _
  have hrun : computation.run before = computation before := rfl
  simp only [ExceptT.tryCatch, ExceptT.run_mk, bind, StateT.bind, hrun]
  rcases computation before with ⟨fault | result, between⟩ <;> rfl

theorem of_tryCatch {handler : Fault → ExceptT Fault (StateM State) Left}
    {handler' : Fault → ExceptT Fault (StateM State') Right}
    (hagree : Computations states related left right)
    (hhandler : ∀ fault, Computations states related (handler fault) (handler' fault)) :
    Computations states related (tryCatch left handler) (tryCatch right handler') := by
  refine ⟨fun before before' hstates => ?_⟩
  obtain ⟨houtcomes, hbetween⟩ := hagree.run before before' hstates
  rw [run_tryCatch, run_tryCatch]
  cases hleft : left.run before with
  | mk outcome between =>
    cases hright : right.run before' with
    | mk outcome' between' =>
      rw [hleft, hright] at houtcomes hbetween
      cases houtcomes with
      | error fault => exact (hhandler fault).run between between' hbetween
      | ok hrelated => exact ⟨.ok hrelated, hbetween⟩

theorem of_mapM {Item Item' : Type} {items : List Item} {items' : List Item'}
    {relatedItems : Item → Item' → Prop} {step : Item → ExceptT Fault (StateM State) Left}
    {step' : Item' → ExceptT Fault (StateM State') Right}
    (hitems : List.Forall₂ relatedItems items items')
    (hstep : ∀ first second, relatedItems first second →
      Computations states related (step first) (step' second)) :
    Computations states (List.Forall₂ related) (items.mapM step) (items'.mapM step') := by
  induction hitems with
  | nil => exact of_pure List.Forall₂.nil
  | cons hitem _ ih =>
    rw [List.mapM_cons, List.mapM_cons]
    exact of_bind (hstep _ _ hitem) fun _ _ hfirst =>
      of_bind ih fun _ _ hrest => of_pure (List.Forall₂.cons hfirst hrest)

theorem of_forM {Item Item' : Type} {items : List Item} {items' : List Item'}
    {relatedItems : Item → Item' → Prop} {step : Item → ExceptT Fault (StateM State) PUnit}
    {step' : Item' → ExceptT Fault (StateM State') PUnit}
    (hitems : List.Forall₂ relatedItems items items')
    (hstep : ∀ first second, relatedItems first second →
      Computations states Eq (step first) (step' second)) :
    Computations states Eq (items.forM step) (items'.forM step') := by
  induction hitems with
  | nil => exact of_pure rfl
  | cons hitem _ ih => exact of_bind (hstep _ _ hitem) fun _ _ _ => ih

end Computations

/-! ## Computations that have no effect when they fail -/

/-- From related states two computations give the same fault, or related results
and related states. -/
structure Transactions (states : State → State' → Prop) (related : Left → Right → Prop)
    (left : StateT State (Except Fault) Left) (right : StateT State' (Except Fault) Right) :
    Prop where
  run : ∀ before before', states before before' →
    Outcomes (fun first second => related first.1 second.1 ∧ states first.2 second.2)
      (left.run before) (right.run before')

namespace Transactions

variable {states : State → State' → Prop}
variable {related : Left → Right → Prop} {relatedNext : Left' → Right' → Prop}
variable {left : StateT State (Except Fault) Left}
variable {right : StateT State' (Except Fault) Right}

theorem of_pure {first : Left} {second : Right} (hrelated : related first second) :
    Transactions states related (pure first) (pure second) :=
  ⟨fun _ _ hstates => .ok ⟨hrelated, hstates⟩⟩

theorem of_throw (fault : Fault) :
    Transactions states related (throw fault) (throw fault) :=
  ⟨fun _ _ _ => .error fault⟩

theorem of_get :
    Transactions states states (get : StateT State (Except Fault) State)
      (get : StateT State' (Except Fault) State') :=
  ⟨fun _ _ hstates => .ok ⟨hstates, hstates⟩⟩

theorem of_set {first : State} {second : State'} (hstates : states first second) :
    Transactions states Eq (set first : StateT State (Except Fault) PUnit)
      (set second : StateT State' (Except Fault) PUnit) :=
  ⟨fun _ _ _ => .ok ⟨rfl, hstates⟩⟩

theorem of_bind {next : Left → StateT State (Except Fault) Left'}
    {next' : Right → StateT State' (Except Fault) Right'}
    (hfirst : Transactions states related left right)
    (hnext : ∀ first second, related first second →
      Transactions states relatedNext (next first) (next' second)) :
    Transactions states relatedNext (left >>= next) (right >>= next') := by
  refine ⟨fun before before' hstates => ?_⟩
  rw [StateT.run_bind, StateT.run_bind]
  exact (hfirst.run before before' hstates).of_bind fun first second hrelated =>
    (hnext first.1 second.1 hrelated.1).run first.2 second.2 hrelated.2

end Transactions

end Agree

end Patchwork
