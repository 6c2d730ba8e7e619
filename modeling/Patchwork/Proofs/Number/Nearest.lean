import Patchwork.Proofs.Number.Rounding

/-!
# Nearest floating-point numbers

An integer becomes the number nearest to it, which is an integer of at most 53 significant
bits.  Taking the nearest one keeps the order and the sign and leaves integers of so few bits
as they are, but two neighbours of more bits may share it.  A quotient becomes the number
nearest to it as well.  From the rounding limit on there is no finite number next to an
integer or a quotient.
-/

namespace Patchwork

/-! ## The nearest integer -/

/-- The integer of at most 53 significant bits that is nearest to a number, ties to even. -/
def nearestInteger (number : Int) : Int :=
  Binary64.signedUnits (decide (number < 0)) (roundUnits number.natAbs 1)

variable {number lesser greater : Int}

theorem Binary64.natAbs_signedUnits (negative : Bool) (units : Nat) :
    (signedUnits negative units).natAbs = units := by
  unfold signedUnits
  split <;> omega

theorem Binary64.signedUnits_natAbs (number : Int) :
    signedUnits (decide (number < 0)) number.natAbs = number := by
  unfold signedUnits
  by_cases hnegative : number < 0
  · rw [if_pos (decide_eq_true hnegative)]
    omega
  · rw [decide_eq_false hnegative, if_neg Bool.false_ne_true]
    omega

@[simp]
theorem natAbs_nearestInteger (number : Int) :
    (nearestInteger number).natAbs = roundUnits number.natAbs 1 :=
  Binary64.natAbs_signedUnits _ _

theorem significant_nearestInteger (number : Int) :
    Significant (nearestInteger number).natAbs := by
  rw [natAbs_nearestInteger]
  exact significant_roundUnits Nat.one_pos _

theorem nearestInteger_of_significant (hnumber : Significant number.natAbs) :
    nearestInteger number = number := by
  have hexact := roundUnits_of_significant hnumber Nat.one_pos
  rw [Nat.mul_one] at hexact
  rw [nearestInteger, hexact, Binary64.signedUnits_natAbs]

theorem nearestInteger_of_nonneg (hnumber : 0 ≤ number) :
    nearestInteger number = roundUnits number.natAbs 1 := by
  rw [nearestInteger, Binary64.signedUnits, if_neg (by simpa using hnumber)]

theorem nearestInteger_zero : nearestInteger 0 = 0 :=
  nearestInteger_of_significant (significant_of_le (Nat.zero_le _))

theorem nearestInteger_neg_of_pos (hnumber : 0 < number) :
    nearestInteger (-number) = -nearestInteger number := by
  rw [nearestInteger_of_nonneg (Int.le_of_lt hnumber), nearestInteger, Binary64.signedUnits,
    if_pos (by simpa using hnumber), Int.natAbs_neg]

theorem nearestInteger_neg (number : Int) : nearestInteger (-number) = -nearestInteger number := by
  obtain hnegative | rfl | hpositive := Int.lt_trichotomy number 0
  · have hopposite := nearestInteger_neg_of_pos (Int.neg_pos_of_neg hnegative)
    rw [Int.neg_neg] at hopposite
    rw [hopposite, Int.neg_neg]
  · rw [Int.neg_zero, nearestInteger_zero, Int.neg_zero]
  · exact nearestInteger_neg_of_pos hpositive

theorem nearestInteger_mono_of_nonneg (hlesser : 0 ≤ lesser) (hle : lesser ≤ greater) :
    nearestInteger lesser ≤ nearestInteger greater := by
  rw [nearestInteger_of_nonneg hlesser, nearestInteger_of_nonneg (Int.le_trans hlesser hle),
    Int.ofNat_le]
  exact roundUnits_mono Nat.one_pos (by omega)

theorem nearestInteger_mono (hle : lesser ≤ greater) :
    nearestInteger lesser ≤ nearestInteger greater := by
  obtain hlesser | hlesser := Int.le_total 0 lesser
  · exact nearestInteger_mono_of_nonneg hlesser hle
  have hopposite := nearestInteger_neg lesser
  obtain hgreater | hgreater := Int.le_total 0 greater
  · have hbelow := nearestInteger_mono_of_nonneg (Int.le_refl 0) (Int.neg_nonneg_of_nonpos hlesser)
    have habove := nearestInteger_mono_of_nonneg (Int.le_refl 0) hgreater
    rw [nearestInteger_zero] at hbelow habove
    omega
  · have hmirrored := nearestInteger_mono_of_nonneg (Int.neg_nonneg_of_nonpos hgreater)
      (Int.neg_le_neg hle)
    rw [nearestInteger_neg, nearestInteger_neg] at hmirrored
    exact Int.neg_le_neg_iff.mp hmirrored

/-- No integer of so few bits is nearer. -/
theorem nearestInteger_nearest (number : Int) {other : Int} (hother : Significant other.natAbs) :
    (number - nearestInteger number).natAbs ≤ (number - other).natAbs := by
  have hnearest := roundUnits_nearest Nat.one_pos number.natAbs hother
  have hzero := roundUnits_nearest Nat.one_pos number.natAbs
    (significant_of_le (Nat.zero_le _) : Significant 0)
  simp only [Nat.mul_one] at hnearest hzero
  by_cases hnegative : number < 0
  · rw [nearestInteger, Binary64.signedUnits, if_pos (by simpa using hnegative)]
    omega
  · rw [nearestInteger_of_nonneg (Int.not_lt.mp hnegative)]
    omega

/-! ## Floating-point numbers that are integers -/

namespace Binary64

theorem signedUnits_mul (negative : Bool) (units scale : Nat) :
    signedUnits negative (units * scale) = signedUnits negative units * scale := by
  cases negative with
  | false => exact Int.natCast_mul _ _
  | true => exact (congrArg Neg.neg (Int.natCast_mul _ _)).trans (Int.neg_mul _ _).symm

/-- A floating-point number is an integer. -/
def IsInteger (number : Binary64) (integer : Int) : Prop :=
  ∃ negative units fits, number = .finite negative units fits ∧
    signedUnits negative units = integer * unitsPerOne

variable {left right : Binary64} {first second : Int}

theorem IsInteger.less (hleft : left.IsInteger first) (hright : right.IsInteger second) :
    less left right = decide (first < second) := by
  obtain ⟨leftSign, leftUnits, leftFits, rfl, hfirst⟩ := hleft
  obtain ⟨rightSign, rightUnits, rightFits, rfl, hsecond⟩ := hright
  rw [Binary64.less, hfirst, hsecond]
  exact decide_eq_decide.mpr (Int.mul_lt_mul_right (Int.natCast_pos.mpr unitsPerOne_pos))

theorem IsInteger.equals (hleft : left.IsInteger first) (hright : right.IsInteger second) :
    equals left right = decide (first = second) := by
  obtain ⟨leftSign, leftUnits, leftFits, rfl, hfirst⟩ := hleft
  obtain ⟨rightSign, rightUnits, rightFits, rfl, hsecond⟩ := hright
  rw [Binary64.equals, hfirst, hsecond]
  exact decide_eq_decide.mpr
    (Int.mul_eq_mul_right_iff (Int.ne_of_gt (Int.natCast_pos.mpr unitsPerOne_pos)))

theorem IsInteger.atMost (hleft : left.IsInteger first) (hright : right.IsInteger second) :
    atMost left right = !decide (second < first) := by
  rw [Binary64.atMost, hleft.less hright, hleft.equals hright, ← decide_not, ← Bool.decide_or]
  exact decide_eq_decide.mpr (by omega)

/-- The sign and the count of units of a number that is an integer. -/
theorem IsInteger.exists_units {number : Binary64} {integer : Int}
    (hnumber : number.IsInteger integer) :
    ∃ negative units fits, number = .finite negative units fits ∧
      units = integer.natAbs * unitsPerOne ∧ signedUnits negative integer.natAbs = integer := by
  obtain ⟨negative, units, fits, rfl, hunits⟩ := hnumber
  have hcount : units = integer.natAbs * unitsPerOne := by
    rw [← natAbs_signedUnits negative units, hunits, Int.natAbs_mul, Int.natAbs_natCast]
  rw [hcount, signedUnits_mul] at hunits
  exact ⟨negative, units, fits, rfl, hcount,
    Int.eq_of_mul_eq_mul_right (Int.ne_of_gt (Int.natCast_pos.mpr unitsPerOne_pos)) hunits⟩

theorem IsInteger.isWhole {number : Binary64} {integer : Int} (hnumber : number.IsInteger integer) :
    number.isWhole = true := by
  obtain ⟨negative, units, fits, rfl, hcount, -⟩ := hnumber.exists_units
  rw [Binary64.isWhole, beq_iff_eq, hcount]
  exact Nat.mul_mod_left _ _

theorem IsInteger.truncate? {number : Binary64} {integer : Int}
    (hnumber : number.IsInteger integer) : number.truncate? = some integer := by
  obtain ⟨negative, units, fits, rfl, hcount, hinteger⟩ := hnumber.exists_units
  rw [Binary64.truncate?, hcount, Nat.mul_div_cancel _ unitsPerOne_pos, hinteger]

theorem IsInteger.round? {number : Binary64} {integer : Int} (hnumber : number.IsInteger integer) :
    number.round? = some integer := by
  obtain ⟨negative, units, fits, rfl, hcount, hinteger⟩ := hnumber.exists_units
  rw [Binary64.round?, hcount, roundQuotient_mul unitsPerOne_pos, hinteger]

/-! ## The number nearest to a quotient -/

variable {numerator denominator : Nat}

theorem ofRatio_of_lt (negative : Bool) (hdenominator : 0 < denominator)
    (hlt : numerator < roundingLimit * denominator) :
    ∃ fits, ofRatio negative numerator denominator =
      .finite negative (roundUnits (numerator * unitsPerOne) denominator) fits := by
  have hbounded : ¬ unitsLimit ≤ roundUnits (numerator * unitsPerOne) denominator := by
    rw [unitsLimit_le_roundUnits_iff hdenominator]
    exact Nat.not_le.mpr hlt
  have hfits := fitsUnits_iff.mpr
    ⟨significant_roundUnits hdenominator (numerator * unitsPerOne), Nat.lt_of_not_le hbounded⟩
  exact ⟨hfits, dif_pos hfits⟩

theorem ofRatio_of_le (negative : Bool) (hdenominator : 0 < denominator)
    (hle : roundingLimit * denominator ≤ numerator) :
    ofRatio negative numerator denominator = .infinite negative := by
  have hbeyond := (unitsLimit_le_roundUnits_iff hdenominator).mpr hle
  exact dif_neg fun hfits => Nat.not_lt.mpr hbeyond (fitsUnits_iff.mp hfits).2

/-- No finite floating-point number is nearer to a quotient than this one. -/
def IsNearest (number : Binary64) (numerator denominator : Int) : Prop :=
  ∃ negative units fits, number = .finite negative units fits ∧
    ∀ otherSign otherUnits, fitsUnits otherUnits = true →
      (numerator * unitsPerOne - signedUnits negative units * denominator).natAbs ≤
        (numerator * unitsPerOne - signedUnits otherSign otherUnits * denominator).natAbs

theorem signedUnits_mul_signedUnits (first second : Bool) (units scale : Nat) :
    signedUnits first units * signedUnits second scale =
      signedUnits (first != second) (units * scale) := by
  cases first <;> cases second <;>
    simp only [signedUnits, Bool.false_eq_true, if_true, if_false, bne_self_eq_false, Bool.bne_true,
      Bool.bne_false, Bool.not_false, Int.neg_mul, Int.mul_neg, Int.neg_neg, Int.natCast_mul]

theorem natAbs_signedUnits_sub (first second : Bool) (units other : Nat) :
    (signedUnits first units - signedUnits second other).natAbs =
      if first = second then ((units : Int) - (other : Int)).natAbs else units + other := by
  cases first <;> cases second <;>
    simp only [signedUnits, Bool.false_eq_true, if_true, if_false, reduceCtorEq] <;> omega

/-- How far a number is from a quotient, counted in units and multiplied by the denominator:
the distance of their magnitudes if their signs agree. -/
theorem distance_eq (numerator denominator : Int) (negative : Bool) (units : Nat) :
    (numerator * unitsPerOne - signedUnits negative units * denominator).natAbs =
      if decide (numerator < 0) = (negative != decide (denominator < 0)) then
        (((numerator.natAbs * unitsPerOne : Nat) : Int) -
          (units * denominator.natAbs : Nat)).natAbs
      else numerator.natAbs * unitsPerOne + units * denominator.natAbs := by
  rw [← natAbs_signedUnits_sub, signedUnits_mul, signedUnits_natAbs,
    ← signedUnits_mul_signedUnits, signedUnits_natAbs]

/-- The sign of a quotient is positive if those of its sides are the same. -/
theorem isNearest_ofRatio {numerator denominator : Int} (hdenominator : denominator ≠ 0)
    (hlt : numerator.natAbs < roundingLimit * denominator.natAbs) :
    (ofRatio (decide (numerator < 0) != decide (denominator < 0)) numerator.natAbs
      denominator.natAbs).IsNearest numerator denominator := by
  have hpositive : 0 < denominator.natAbs := Int.natAbs_pos.mpr hdenominator
  obtain ⟨fits, hratio⟩ := ofRatio_of_lt (decide (numerator < 0) != decide (denominator < 0))
    hpositive hlt
  refine ⟨_, _, fits, hratio, fun otherSign otherUnits hother => ?_⟩
  have hnearest := roundUnits_nearest hpositive (numerator.natAbs * unitsPerOne)
    (fitsUnits_iff.mp hother).1
  have hzero := roundUnits_nearest hpositive (numerator.natAbs * unitsPerOne)
    (significant_of_le (Nat.zero_le _) : Significant 0)
  rw [distance_eq, distance_eq, if_pos (by simp)]
  split
  · exact hnearest
  · rw [Nat.zero_mul] at hzero
    omega

theorem exists_ofInt? {number : Int} (hnumber : number.natAbs < roundingLimit) :
    ∃ rounded, ofInt? number = some rounded ∧ rounded.IsInteger (nearestInteger number) := by
  obtain ⟨fits, hratio⟩ := ofRatio_of_lt (number < 0) Nat.one_pos
    (by rwa [Nat.mul_one] : number.natAbs < roundingLimit * 1)
  refine ⟨_, by rw [ofInt?, hratio]; rfl, _, _, fits, rfl, ?_⟩
  rw [roundUnits_mul_unitsPerOne, signedUnits_mul, nearestInteger]

theorem ofInt?_eq_none {number : Int} (hnumber : roundingLimit ≤ number.natAbs) :
    ofInt? number = none := by
  rw [ofInt?, ofRatio_of_le _ Nat.one_pos (by rwa [Nat.mul_one])]
  rfl

end Binary64

end Patchwork
