import Patchwork.Number.Binary64

/-!
# Random draws

A generator is a state that each draw moves on.  It is a function of its seed
and of the number of draws since, so a run with a seed can be repeated.
-/

namespace Patchwork

/-- The state of a generator. -/
structure Draws where
  state : Nat
  deriving DecidableEq, Repr

namespace Draws

/-- How many states there are. -/
def modulus : Nat := Nat.pow 2 64

/-- The generator of a seed. -/
def seeded (seed : Option Int) : Draws :=
  ⟨((seed.getD 0) % modulus).toNat⟩

/-- The next state. -/
def advance (draws : Draws) : Draws :=
  ⟨(draws.state * 6364136223846793005 + 1442695040888963407) % modulus⟩

/-- A number of 53 bits, and the generator after it. -/
def next (draws : Draws) : Nat × Draws :=
  (draws.advance.state / Nat.pow 2 11, draws.advance)

/-- A number from zero up to but not including one. -/
def fraction (draws : Draws) : Binary64 × Draws :=
  (.ofRatio false draws.next.1 (Nat.pow 2 53), draws.next.2)

/-- An integer from `low` up to but not including `high`, which is greater. -/
def between (low high : Int) (draws : Draws) : Int × Draws :=
  (low + draws.next.1 % (high - low), draws.next.2)

theorem between_bounds {low high : Int} (hlt : low < high) (draws : Draws) :
    low ≤ (between low high draws).1 ∧ (between low high draws).1 < high := by
  have hnonneg := Int.emod_nonneg (draws.next.1 : Int) (b := high - low) (by omega)
  have hbound := Int.emod_lt_of_pos (draws.next.1 : Int) (b := high - low) (by omega)
  simp only [between]
  omega

end Draws

end Patchwork
