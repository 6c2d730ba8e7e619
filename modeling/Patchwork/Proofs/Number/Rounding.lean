import Mathlib.Algebra.Group.Nat.Defs
import Patchwork.Number.Binary64

/-!
# Rounding to 53 significant bits

A quotient is rounded to a count of units with at most 53 significant bits.  The rounded
count is one of those nearest to the quotient, a count that has so few bits is its own
rounding, and rounding keeps the order.  What is rounded beyond the finite numbers is
everything from the middle between the greatest of them and the power of two after it.
-/

namespace Patchwork

variable {numerator greater denominator scale count shift : Nat}

/-! ## The nearest natural number -/

theorem roundQuotient_cases (numerator denominator : Nat) :
    (roundQuotient numerator denominator = numerator / denominator ∧
        2 * (numerator % denominator) ≤ denominator) ∨
      (roundQuotient numerator denominator = numerator / denominator + 1 ∧
        denominator ≤ 2 * (numerator % denominator)) := by
  unfold roundQuotient
  dsimp only
  split
  · exact .inl ⟨rfl, by omega⟩
  split
  · exact .inr ⟨rfl, by omega⟩
  · obtain heven | hodd := Nat.mod_two_eq_zero_or_one (numerator / denominator)
    · exact .inl ⟨by rw [heven, Nat.add_zero], by omega⟩
    · exact .inr ⟨by rw [hodd], by omega⟩

theorem roundQuotient_mul (hdenominator : 0 < denominator) (number : Nat) :
    roundQuotient (number * denominator) denominator = number := by
  have hcases := roundQuotient_cases (number * denominator) denominator
  rw [Nat.mul_div_cancel _ hdenominator, Nat.mul_mod_left] at hcases
  omega

theorem roundQuotient_mul_right (hscale : 0 < scale) (numerator denominator : Nat) :
    roundQuotient (numerator * scale) (denominator * scale) =
      roundQuotient numerator denominator := by
  have hdouble : 2 * (numerator % denominator * scale) =
      2 * (numerator % denominator) * scale := (Nat.mul_assoc _ _ _).symm
  unfold roundQuotient
  dsimp only
  rw [Nat.mul_div_mul_right _ _ hscale, Nat.mul_mod_mul_right, hdouble]
  simp only [Nat.mul_lt_mul_right hscale]

theorem roundQuotient_mono (hle : numerator ≤ greater) :
    roundQuotient numerator denominator ≤ roundQuotient greater denominator := by
  obtain hlt | heq := Nat.lt_or_eq_of_le (Nat.div_le_div_right (c := denominator) hle)
  · have hnumerator := roundQuotient_cases numerator denominator
    have hgreater := roundQuotient_cases greater denominator
    omega
  · -- With equal quotients the remainders decide, and they are in the same order.
    have hremainders : numerator % denominator ≤ greater % denominator := by
      have hnumerator := Nat.div_add_mod numerator denominator
      have hgreater := Nat.div_add_mod greater denominator
      rw [heq] at hnumerator
      omega
    unfold roundQuotient
    dsimp only
    rw [heq]
    repeat' split
    all_goals omega

/-- No multiple of the denominator is nearer to the numerator. -/
theorem roundQuotient_nearest (hdenominator : 0 < denominator) (numerator other : Nat) :
    ((numerator : Int) - (roundQuotient numerator denominator * denominator : Nat)).natAbs ≤
      ((numerator : Int) - (other * denominator : Nat)).natAbs := by
  have hdivision := Nat.div_add_mod' numerator denominator
  have hremainder := Nat.mod_lt numerator hdenominator
  have hother : other * denominator ≤ numerator / denominator * denominator ∨
      numerator / denominator * denominator + denominator ≤ other * denominator := by
    obtain hlt | hle := Nat.lt_or_ge (numerator / denominator) other
    · have hnext := Nat.mul_le_mul_right denominator (Nat.succ_le_of_lt hlt)
      rw [Nat.succ_mul] at hnext
      exact .inr hnext
    · exact .inl (Nat.mul_le_mul_right _ hle)
  obtain ⟨hrounded, _⟩ | ⟨hrounded, _⟩ := roundQuotient_cases numerator denominator
  · rw [hrounded]
    omega
  · rw [hrounded, Nat.succ_mul]
    omega

/-! ## Counts of few bits -/

/-- A count of at most 53 significant bits. -/
def Significant (count : Nat) : Prop :=
  ∃ digits shift, digits < 2 ^ significantBits ∧ count = digits * 2 ^ shift

theorem droppedBits_le_iff : droppedBits count ≤ shift ↔ count < 2 ^ (shift + significantBits) := by
  unfold droppedBits
  by_cases hzero : count = 0
  · subst hzero
    exact iff_of_true (by simp [significantBits]) (Nat.two_pow_pos _)
  · rw [← Nat.log2_lt hzero]
    omega

theorem lt_droppedBits_iff :
    shift < droppedBits count ↔ 2 ^ (shift + significantBits) ≤ count := by
  rw [← Nat.not_le, droppedBits_le_iff, Nat.not_lt]

theorem droppedBits_mono {lesser count : Nat} (hle : lesser ≤ count) :
    droppedBits lesser ≤ droppedBits count :=
  droppedBits_le_iff.mpr (Nat.lt_of_le_of_lt hle (droppedBits_le_iff.mp (Nat.le_refl _)))

theorem significant_iff : Significant count ↔ 2 ^ droppedBits count ∣ count := by
  constructor
  · rintro ⟨digits, shift, hdigits, rfl⟩
    have hdropped : droppedBits (digits * 2 ^ shift) ≤ shift := by
      rw [droppedBits_le_iff, Nat.add_comm, Nat.pow_add]
      exact Nat.mul_lt_mul_of_pos_right hdigits (Nat.two_pow_pos _)
    exact Nat.dvd_mul_left_of_dvd (Nat.pow_dvd_pow 2 hdropped) digits
  · rintro ⟨digits, hdigits⟩
    refine ⟨digits, droppedBits count, ?_, by rw [Nat.mul_comm]; exact hdigits⟩
    have hcount : count < 2 ^ (droppedBits count + significantBits) :=
      droppedBits_le_iff.mp (Nat.le_refl _)
    generalize droppedBits count = shift at hdigits hcount
    rw [hdigits, Nat.pow_add] at hcount
    exact Nat.lt_of_mul_lt_mul_left hcount

theorem significant_mul_two_pow {digits : Nat} (hdigits : digits ≤ 2 ^ significantBits)
    (shift : Nat) : Significant (digits * 2 ^ shift) := by
  obtain hlt | rfl := Nat.lt_or_eq_of_le hdigits
  · exact ⟨digits, shift, hlt, rfl⟩
  · refine ⟨1, significantBits + shift, Nat.one_lt_two_pow (by decide), ?_⟩
    rw [Nat.one_mul, Nat.pow_add]

theorem significant_of_le (hcount : count ≤ 2 ^ significantBits) : Significant count := by
  have hshift := significant_mul_two_pow hcount 0
  rwa [Nat.pow_zero, Nat.mul_one] at hshift

theorem fitsUnits_iff : fitsUnits count = true ↔ Significant count ∧ count < unitsLimit := by
  rw [fitsUnits, Bool.and_eq_true, beq_iff_eq, decide_eq_true_iff, significant_iff,
    Nat.dvd_iff_mod_eq_zero]
  exact Iff.rfl

/-! ## The nearest count -/

theorem roundUnits_eq (numerator denominator : Nat) :
    roundUnits numerator denominator =
      roundQuotient numerator (denominator * 2 ^ droppedBits (numerator / denominator)) *
        2 ^ droppedBits (numerator / denominator) :=
  rfl

theorem roundUnits_mul_right (hscale : 0 < scale) (numerator denominator : Nat) :
    roundUnits (numerator * scale) (denominator * scale) = roundUnits numerator denominator := by
  rw [roundUnits_eq, roundUnits_eq, Nat.mul_div_mul_right _ _ hscale, Nat.mul_right_comm,
    roundQuotient_mul_right hscale]

/-- A count of few bits is its own rounding. -/
theorem roundUnits_of_significant (hcount : Significant count) (hdenominator : 0 < denominator) :
    roundUnits (count * denominator) denominator = count := by
  obtain ⟨digits, hdigits⟩ := significant_iff.mp hcount
  rw [roundUnits_eq, Nat.mul_div_cancel _ hdenominator]
  generalize droppedBits count = shift at hdigits ⊢
  have hproduct : count * denominator = digits * (denominator * 2 ^ shift) := by
    rw [hdigits, Nat.mul_comm denominator, ← Nat.mul_assoc, Nat.mul_comm digits]
  rw [hproduct, roundQuotient_mul (Nat.mul_pos hdenominator (Nat.two_pow_pos _)), hdigits,
    Nat.mul_comm]

/-- What is rounded lies below the 53rd power of two, counted in the spacing. -/
theorem roundQuotient_spacing_le (hdenominator : 0 < denominator)
    (hdropped : droppedBits (numerator / denominator) ≤ shift) :
    roundQuotient numerator (denominator * 2 ^ shift) ≤ 2 ^ significantBits := by
  have hspacing : 0 < denominator * 2 ^ shift := Nat.mul_pos hdenominator (Nat.two_pow_pos _)
  rw [droppedBits_le_iff, Nat.div_lt_iff_lt_mul hdenominator, Nat.add_comm, Nat.pow_add,
    Nat.mul_assoc, Nat.mul_comm (2 ^ shift)] at hdropped
  rw [← roundQuotient_mul hspacing (2 ^ significantBits)]
  exact roundQuotient_mono (Nat.le_of_lt hdropped)

theorem significant_roundUnits (hdenominator : 0 < denominator) (numerator : Nat) :
    Significant (roundUnits numerator denominator) :=
  significant_mul_two_pow (roundQuotient_spacing_le hdenominator (Nat.le_refl _)) _

theorem roundUnits_le_two_pow (hdenominator : 0 < denominator)
    (hdropped : droppedBits (numerator / denominator) ≤ shift) :
    roundUnits numerator denominator ≤ 2 ^ (shift + significantBits) := by
  rw [roundUnits_eq, Nat.add_comm, Nat.pow_add]
  exact Nat.mul_le_mul (roundQuotient_spacing_le hdenominator (Nat.le_refl _))
    (Nat.pow_le_pow_right (by decide) hdropped)

/-- The quotient is at least half of the 53rd power of two, counted in the spacing, unless
nothing is rounded away. -/
theorem two_pow_mul_spacing_le (hdenominator : 0 < denominator)
    (hdropped : 0 < droppedBits (numerator / denominator)) :
    2 ^ (significantBits - 1) * (denominator * 2 ^ droppedBits (numerator / denominator)) ≤
      numerator := by
  obtain ⟨shift, hshift⟩ := Nat.exists_eq_add_one.mpr hdropped
  have hleast : 2 ^ (shift + significantBits) ≤ numerator / denominator :=
    lt_droppedBits_iff.mp (hshift ▸ Nat.lt_succ_self shift)
  have hexponent : significantBits - 1 + (shift + 1) = shift + significantBits := by
    unfold significantBits
    omega
  rw [hshift, Nat.mul_left_comm, ← Nat.pow_add, hexponent, Nat.mul_comm]
  exact (Nat.le_div_iff_mul_le hdenominator).mp hleast

theorem two_pow_le_roundUnits (hdenominator : 0 < denominator)
    (hdropped : shift < droppedBits (numerator / denominator)) :
    2 ^ (shift + significantBits) ≤ roundUnits numerator denominator := by
  have hspacing := two_pow_mul_spacing_le hdenominator (Nat.zero_lt_of_lt hdropped)
  rw [roundUnits_eq]
  generalize droppedBits (numerator / denominator) = dropped at hdropped hspacing
  have hpositive : 0 < denominator * 2 ^ dropped := Nat.mul_pos hdenominator (Nat.two_pow_pos _)
  calc 2 ^ (shift + significantBits)
      ≤ 2 ^ (significantBits - 1 + dropped) :=
        Nat.pow_le_pow_right (by decide) (by unfold significantBits; omega)
    _ = 2 ^ (significantBits - 1) * 2 ^ dropped := Nat.pow_add _ _ _
    _ ≤ roundQuotient numerator (denominator * 2 ^ dropped) * 2 ^ dropped := by
        refine Nat.mul_le_mul_right _ ?_
        rw [← roundQuotient_mul hpositive (2 ^ (significantBits - 1))]
        exact roundQuotient_mono hspacing

/-- Rounding keeps the order: between two powers of two the spacing is the same, and no
rounding leads across one. -/
theorem roundUnits_mono (hdenominator : 0 < denominator) (hle : numerator ≤ greater) :
    roundUnits numerator denominator ≤ roundUnits greater denominator := by
  have hdropped := droppedBits_mono (Nat.div_le_div_right (c := denominator) hle)
  obtain hlt | heq := Nat.lt_or_eq_of_le hdropped
  · exact Nat.le_trans (roundUnits_le_two_pow hdenominator (Nat.le_refl _))
      (two_pow_le_roundUnits hdenominator hlt)
  · rw [roundUnits_eq, roundUnits_eq, heq]
    exact Nat.mul_le_mul_right _ (roundQuotient_mono hle)

/-- No count of few bits is nearer to the quotient. -/
theorem roundUnits_nearest (hdenominator : 0 < denominator) (numerator : Nat)
    (hcount : Significant count) :
    ((numerator : Int) - (roundUnits numerator denominator * denominator : Nat)).natAbs ≤
      ((numerator : Int) - (count * denominator : Nat)).natAbs := by
  obtain ⟨digits, shift, hdigits, rfl⟩ := hcount
  have hspacing := @two_pow_mul_spacing_le numerator _ hdenominator
  rw [roundUnits_eq]
  generalize droppedBits (numerator / denominator) = dropped at hspacing ⊢
  have hpositive : 0 < denominator * 2 ^ dropped := Nat.mul_pos hdenominator (Nat.two_pow_pos _)
  rw [Nat.mul_assoc, Nat.mul_comm (2 ^ dropped)]
  obtain hfine | hcoarse := Nat.lt_or_ge shift dropped
  · -- A count between the multiples of the spacing is below half of what the spacing is for.
    have hexponent : significantBits + shift ≤ significantBits - 1 + dropped := by
      unfold significantBits
      omega
    have hbelow : digits * 2 ^ shift * denominator ≤
        2 ^ (significantBits - 1) * (denominator * 2 ^ dropped) :=
      calc digits * 2 ^ shift * denominator
          ≤ 2 ^ (significantBits + shift) * denominator := by
            rw [Nat.pow_add]
            exact Nat.mul_le_mul_right _ (Nat.mul_le_mul_right _ (Nat.le_of_lt hdigits))
        _ ≤ 2 ^ (significantBits - 1 + dropped) * denominator :=
            Nat.mul_le_mul_right _ (Nat.pow_le_pow_right (by decide) hexponent)
        _ = 2 ^ (significantBits - 1) * (denominator * 2 ^ dropped) := by
            rw [Nat.pow_add, Nat.mul_assoc, Nat.mul_comm denominator]
    have hnearest := roundQuotient_nearest hpositive numerator (2 ^ (significantBits - 1))
    have hleast := hspacing (Nat.zero_lt_of_lt hfine)
    omega
  · have hmultiple : digits * 2 ^ shift * denominator =
        digits * 2 ^ (shift - dropped) * (denominator * 2 ^ dropped) := by
      have hshift : 2 ^ shift = 2 ^ (shift - dropped) * 2 ^ dropped := by
        rw [← Nat.pow_add, Nat.sub_add_cancel hcoarse]
      rw [hshift, ← Nat.mul_assoc, Nat.mul_assoc, Nat.mul_comm denominator]
    rw [hmultiple]
    exact roundQuotient_nearest hpositive numerator _

/-- Doubling what is rounded doubles the rounded count, because a count that is too small to
lose a bit stays as it is. -/
theorem roundUnits_mul_two_pow (count shift : Nat) :
    roundUnits (count * 2 ^ shift) 1 = roundUnits count 1 * 2 ^ shift := by
  obtain hnone | hsome := Nat.eq_zero_or_pos (droppedBits count)
  · have hcount : count < 2 ^ significantBits := by
      have hbound : count < 2 ^ (0 + significantBits) := droppedBits_le_iff.mp (Nat.le_of_eq hnone)
      rwa [Nat.zero_add] at hbound
    have hexact := roundUnits_of_significant ⟨count, shift, hcount, rfl⟩ Nat.one_pos
    have hself := roundUnits_of_significant (significant_of_le (Nat.le_of_lt hcount)) Nat.one_pos
    rw [Nat.mul_one] at hexact hself
    rw [hexact, hself]
  · have hdropped : droppedBits (count * 2 ^ shift) = droppedBits count + shift := by
      obtain ⟨dropped, hcount⟩ := Nat.exists_eq_add_one.mpr hsome
      refine Nat.le_antisymm ?_ ?_
      · rw [droppedBits_le_iff, Nat.add_right_comm, Nat.pow_add]
        exact Nat.mul_lt_mul_of_pos_right (droppedBits_le_iff.mp (Nat.le_refl _))
          (Nat.two_pow_pos _)
      · rw [hcount, Nat.add_right_comm, Nat.succ_le_iff, lt_droppedBits_iff, Nat.add_right_comm,
          Nat.pow_add]
        exact Nat.mul_le_mul_right _ (lt_droppedBits_iff.mp (hcount ▸ Nat.lt_succ_self _))
    rw [roundUnits_eq, roundUnits_eq, Nat.div_one, Nat.div_one, hdropped, Nat.pow_add,
      ← Nat.mul_assoc 1, roundQuotient_mul_right (Nat.two_pow_pos _), Nat.mul_assoc]

/-! ## Counts beyond the finite numbers -/

/-- The least number that is rounded beyond the finite ones: the middle between the greatest
finite number and the power of two after it. -/
def roundingLimit : Nat := Nat.pow 2 1024 - Nat.pow 2 970

theorem unitsPerOne_pos : 0 < unitsPerOne := by
  unfold unitsPerOne
  generalize 1074 = exponent
  exact Nat.two_pow_pos exponent

theorem roundUnits_mul_unitsPerOne (count : Nat) :
    roundUnits (count * unitsPerOne) 1 = roundUnits count 1 * unitsPerOne := by
  unfold unitsPerOne
  generalize 1074 = shift
  exact roundUnits_mul_two_pow count shift

/-- The greatest count of a finite number is as far below the limit as the first count that is
too large is above it. -/
theorem exists_greatest :
    ∃ greatest, Significant greatest ∧ greatest < unitsLimit ∧
      greatest + unitsLimit = 2 * (roundingLimit * unitsPerOne) :=
  ⟨(2 ^ significantBits - 1) * 2 ^ 2045, significant_mul_two_pow (Nat.sub_le _ _) 2045,
    by decide +kernel, by decide +kernel⟩

theorem roundUnits_roundingLimit : roundUnits (roundingLimit * unitsPerOne) 1 = unitsLimit := by
  decide +kernel

theorem unitsLimit_le_roundUnits_iff (hdenominator : 0 < denominator) :
    unitsLimit ≤ roundUnits (numerator * unitsPerOne) denominator ↔
      roundingLimit * denominator ≤ numerator := by
  constructor
  · intro hbeyond
    rw [← Nat.not_lt]
    intro hlt
    obtain ⟨greatest, hsignificant, hgreatest, hmiddle⟩ := exists_greatest
    have hnearest := roundUnits_nearest hdenominator (numerator * unitsPerOne) hsignificant
    have hproduct : numerator * unitsPerOne < roundingLimit * unitsPerOne * denominator := by
      rw [Nat.mul_right_comm]
      exact Nat.mul_lt_mul_of_pos_right hlt unitsPerOne_pos
    have hrounded := Nat.mul_le_mul_right denominator hbeyond
    have hbelow := Nat.mul_lt_mul_of_pos_right hgreatest hdenominator
    have htwice : greatest * denominator + unitsLimit * denominator =
        2 * (roundingLimit * unitsPerOne * denominator) := by
      rw [← Nat.add_mul, hmiddle, Nat.mul_assoc 2]
    omega
  · intro hle
    have hproduct : roundingLimit * unitsPerOne * denominator ≤ numerator * unitsPerOne := by
      rw [Nat.mul_right_comm]
      exact Nat.mul_le_mul_right _ hle
    calc unitsLimit
        = roundUnits (roundingLimit * unitsPerOne * denominator) (1 * denominator) := by
          rw [roundUnits_mul_right hdenominator, roundUnits_roundingLimit]
      _ ≤ roundUnits (numerator * unitsPerOne) denominator := by
          rw [Nat.one_mul]
          exact roundUnits_mono hdenominator hproduct

end Patchwork
