import Mathlib.Data.List.Forall2
import Patchwork.Evaluation.Calls
import Patchwork.Proofs.Evaluation.Integers
import Patchwork.Proofs.Evaluation.Yields

/-!
# The least and the greatest of integers

`Min` and `Max` work on floating-point numbers, and rounding keeps the order.  So they give the
integer nearest to the least or the greatest element of an array, which is the element itself
if it has at most 53 bits.  They fail if an element has no finite number next to it.
-/

namespace Patchwork

/-! ## Numbers that are integers -/

namespace Binary64

/-- Floating-point numbers that are integers, one by one. -/
abbrev AreIntegers (numbers : List Binary64) (integers : List Int) : Prop :=
  List.Forall₂ IsInteger numbers integers

variable {numbers : List Binary64} {integers : List Int}

/-- Going through numbers that are integers keeps to integers if each choice does. -/
theorem isInteger_foldl {pick : Binary64 → Binary64 → Binary64} {choose : Int → Int → Int}
    (hpick : ∀ {left right : Binary64} {first second : Int}, left.IsInteger first →
      right.IsInteger second → (pick left right).IsInteger (choose first second))
    (hnumbers : AreIntegers numbers integers) {number : Binary64} {integer : Int}
    (hnumber : number.IsInteger integer) :
    (numbers.foldl pick number).IsInteger (integers.foldl choose integer) := by
  induction hnumbers generalizing number integer with
  | nil => exact hnumber
  | cons hfirst _ ih => exact ih (hpick hnumber hfirst)

variable {left right : Binary64} {first second : Int}

theorem IsInteger.min (hleft : left.IsInteger first) (hright : right.IsInteger second) :
    (if right.less left then right else left).IsInteger (min first second) := by
  rw [hright.less hleft]
  split
  case isTrue hless =>
    rwa [Int.min_eq_right (Int.le_of_lt (of_decide_eq_true hless))]
  case isFalse hless =>
    rwa [Int.min_eq_left (by simpa using hless)]

theorem IsInteger.max (hleft : left.IsInteger first) (hright : right.IsInteger second) :
    (if left.less right then right else left).IsInteger (max first second) := by
  rw [hleft.less hright]
  split
  case isTrue hless =>
    rwa [Int.max_eq_right (Int.le_of_lt (of_decide_eq_true hless))]
  case isFalse hless =>
    rwa [Int.max_eq_left (by simpa using hless)]

end Binary64

theorem Value.ofNumber_of_isInteger {number : Binary64} {integer : Int}
    (hnumber : number.IsInteger integer) : Value.ofNumber number = .integer integer := by
  rw [Value.ofNumber, hnumber.isWhole, hnumber.truncate?]

namespace Function

open Binary64

variable {numbers : List Binary64} {integers : List Int} {integer : Int}

theorem isInteger_least (hnumbers : AreIntegers numbers integers)
    (hleast : integers.min? = some integer) : (least numbers).IsInteger integer := by
  cases hnumbers with
  | nil => cases hleast
  | cons hfirst hrest =>
    obtain rfl := Option.some.inj hleast
    exact isInteger_foldl IsInteger.min hrest hfirst

theorem isInteger_greatest (hnumbers : AreIntegers numbers integers)
    (hgreatest : integers.max? = some integer) : (greatest numbers).IsInteger integer := by
  cases hnumbers with
  | nil => cases hgreatest
  | cons hfirst hrest =>
    obtain rfl := Option.some.inj hgreatest
    exact isInteger_foldl IsInteger.max hrest hfirst

end Function

/-! ## Conversions -/

section

variable (labels : Labels) {integers : List Int}

theorem exists_mapM_toFloat (hbounded : ∀ number ∈ integers, number.natAbs < roundingLimit) :
    ∃ numbers, (integers.map Value.integer).mapM (Value.toFloat labels) = .ok numbers ∧
      Binary64.AreIntegers numbers (integers.map nearestInteger) := by
  induction integers with
  | nil => exact ⟨[], rfl, .nil⟩
  | cons first rest ih =>
    obtain ⟨hfirst, hrest⟩ := List.forall_mem_cons.mp hbounded
    obtain ⟨number, hnumber, hinteger⟩ := Value.exists_toFloat_integer labels hfirst
    obtain ⟨numbers, hnumbers, hintegers⟩ := ih hrest
    refine ⟨number :: numbers, ?_, .cons hinteger hintegers⟩
    rw [List.map_cons, List.mapM_cons, hnumber, hnumbers]
    rfl

theorem mapM_toFloat_of_le (hbeyond : ∃ number ∈ integers, roundingLimit ≤ number.natAbs) :
    (integers.map Value.integer).mapM (Value.toFloat labels) =
      .error (.number .integerTooLarge) := by
  induction integers with
  | nil => exact absurd hbeyond nofun
  | cons first rest ih =>
    rw [List.map_cons, List.mapM_cons]
    obtain hfirst | hfirst := Nat.lt_or_ge first.natAbs roundingLimit
    · obtain ⟨number, hnumber, -⟩ := Value.exists_toFloat_integer labels hfirst
      have hrest : ∃ number ∈ rest, roundingLimit ≤ number.natAbs := by
        simpa [Nat.not_le.mpr hfirst] using hbeyond
      rw [hnumber, ih hrest]
      rfl
    · rw [Value.toFloat_integer_of_le labels hfirst]
      rfl

end

/-! ## The functions -/

namespace Function

/-- A function has one outcome whenever its first argument is an array of the integers given. -/
def GivesOn (function : Function) (integers : List Int) (outcome : Except Fault Value) : Prop :=
  ∀ (record : Option RecordRef) (argument : Argument) (others : List Argument)
    (before between : World),
    (argument record).Yields before (.array (integers.map .integer)) between →
      (function.apply record (argument :: others)).run before = (outcome, between)

/-- A function picks one of the numbers of its first argument. -/
def Picks (function : Function) (purpose : String) (pick : List Binary64 → Binary64) : Prop :=
  ∀ record arguments, function.result record arguments = do
    return .ofNumber (pick (← numbers purpose
      (← Eval.argument function.name arguments 0 record)))

theorem picks_min : Picks .min "Min" least :=
  fun _ _ => rfl

theorem picks_max : Picks .max "Max" greatest :=
  fun _ _ => rfl

theorem run_numbers (purpose : String) {items : List Value} (hitems : items ≠ [])
    (before : World) :
    (numbers purpose (.array items)).run before =
      (items.mapM (Value.toFloat before.pool.label), before) := by
  rw [numbers, Eval.run_bind, Eval.run_labelled]
  dsimp only [Value.expectArray]
  rw [if_neg (by simpa using hitems)]
  exact Eval.run_mapM_labelled (fun item labels => item.toFloat labels) items before

variable {function : Function} {purpose : String} {pick : List Binary64 → Binary64}
  {integers : List Int}

theorem run_result (hpicks : function.Picks purpose pick) (hintegers : integers ≠ [])
    {record : Option RecordRef} {argument : Argument} (others : List Argument)
    {before between : World}
    (hargument : (argument record).Yields before (.array (integers.map .integer)) between) :
    (function.result record (argument :: others)).run before =
      (((integers.map Value.integer).mapM (Value.toFloat between.pool.label)).map
        (fun numbers => .ofNumber (pick numbers)), between) := by
  have hitems : integers.map Value.integer ≠ [] := by simpa using hintegers
  rw [hpicks, Eval.run_bind, Eval.argument, List.getElem?_cons_zero]
  dsimp only
  rw [hargument]
  dsimp only
  rw [Eval.run_bind, run_numbers purpose hitems]
  cases (integers.map Value.integer).mapM (Value.toFloat between.pool.label) <;> rfl

theorem givesOn_of_isInteger (hpicks : function.Picks purpose pick) {extreme : Int}
    (hpick : ∀ {numbers : List Binary64},
      Binary64.AreIntegers numbers (integers.map nearestInteger) → (pick numbers).IsInteger extreme)
    (hintegers : integers ≠ []) (hbounded : ∀ number ∈ integers, number.natAbs < roundingLimit) :
    function.GivesOn integers (.ok (.integer extreme)) := by
  intro record argument others before between hargument
  obtain ⟨numbers, hnumbers, hconverted⟩ := exists_mapM_toFloat between.pool.label hbounded
  rw [apply, Eval.run_bind, run_result hpicks hintegers others hargument, hnumbers, Except.map,
    Value.ofNumber_of_isInteger (hpick hconverted)]
  rfl

theorem givesOn_of_le (hpicks : function.Picks purpose pick)
    (hbeyond : ∃ number ∈ integers, roundingLimit ≤ number.natAbs) :
    function.GivesOn integers (.error (.number .integerTooLarge)) := by
  intro record argument others before between hargument
  have hintegers : integers ≠ [] := List.ne_nil_of_mem hbeyond.choose_spec.1
  rw [apply, Eval.run_bind, run_result hpicks hintegers others hargument,
    mapM_toFloat_of_le _ hbeyond]
  rfl

/-! ## Extremes -/

/-- An integer is the least or the greatest of some, as a function looks for it. -/
inductive IsExtreme : Function → List Int → Int → Prop
  | least {integers : List Int} {lowest : Int} (hmem : lowest ∈ integers)
    (hleast : ∀ number ∈ integers, lowest ≤ number) : IsExtreme .min integers lowest
  | greatest {integers : List Int} {highest : Int} (hmem : highest ∈ integers)
    (hgreatest : ∀ number ∈ integers, number ≤ highest) : IsExtreme .max integers highest

theorem exists_least (hintegers : integers ≠ []) : ∃ lowest, IsExtreme .min integers lowest := by
  obtain ⟨lowest, hlowest⟩ := Option.isSome_iff_exists.mp (List.isSome_min?_of_ne_nil hintegers)
  obtain ⟨hmem, hleast⟩ := List.min?_eq_some_iff.mp hlowest
  exact ⟨lowest, .least hmem hleast⟩

theorem exists_greatest (hintegers : integers ≠ []) :
    ∃ highest, IsExtreme .max integers highest := by
  obtain ⟨highest, hhighest⟩ := Option.isSome_iff_exists.mp (List.isSome_max?_of_ne_nil hintegers)
  obtain ⟨hmem, hgreatest⟩ := List.max?_eq_some_iff.mp hhighest
  exact ⟨highest, .greatest hmem hgreatest⟩

namespace IsExtreme

variable {extreme : Int} {others : List Int}

theorem mem (hextreme : IsExtreme function integers extreme) : extreme ∈ integers := by
  cases hextreme <;> assumption

theorem perm (hextreme : IsExtreme function integers extreme) (hperm : integers.Perm others) :
    IsExtreme function others extreme := by
  cases hextreme with
  | least hmem hleast =>
    exact .least (hperm.mem_iff.mp hmem) fun number hnumber =>
      hleast number (hperm.mem_iff.mpr hnumber)
  | greatest hmem hgreatest =>
    exact .greatest (hperm.mem_iff.mp hmem) fun number hnumber =>
      hgreatest number (hperm.mem_iff.mpr hnumber)

/-- The opposite of the least is the greatest of the opposites. -/
theorem neg (hextreme : IsExtreme .min integers extreme) :
    IsExtreme .max (integers.map Neg.neg) (-extreme) := by
  cases hextreme with
  | least hmem hleast =>
    refine .greatest (List.mem_map_of_mem hmem) ?_
    rw [List.forall_mem_map]
    exact fun number hnumber => Int.neg_le_neg (hleast number hnumber)

/-- Rounding keeps the order, so the extreme element comes out, rounded. -/
theorem givesOn (hextreme : IsExtreme function integers extreme)
    (hbounded : ∀ number ∈ integers, number.natAbs < roundingLimit) :
    function.GivesOn integers (.ok (.integer (nearestInteger extreme))) := by
  have hintegers := List.ne_nil_of_mem hextreme.mem
  cases hextreme with
  | least hmem hleast =>
    refine givesOn_of_isInteger picks_min (fun hnumbers => ?_) hintegers hbounded
    refine isInteger_least hnumbers (List.min?_eq_some_iff.mpr ⟨List.mem_map_of_mem hmem, ?_⟩)
    rw [List.forall_mem_map]
    exact fun number hnumber => nearestInteger_mono (hleast number hnumber)
  | greatest hmem hgreatest =>
    refine givesOn_of_isInteger picks_max (fun hnumbers => ?_) hintegers hbounded
    refine isInteger_greatest hnumbers (List.max?_eq_some_iff.mpr ⟨List.mem_map_of_mem hmem, ?_⟩)
    rw [List.forall_mem_map]
    exact fun number hnumber => nearestInteger_mono (hgreatest number hnumber)

theorem givesOn_of_beyond (hextreme : IsExtreme function integers extreme)
    (hbeyond : ∃ number ∈ integers, roundingLimit ≤ number.natAbs) :
    function.GivesOn integers (.error (.number .integerTooLarge)) := by
  cases hextreme with
  | least => exact givesOn_of_le picks_min hbeyond
  | greatest => exact givesOn_of_le picks_max hbeyond

end IsExtreme

/-- A function has only one outcome, because there is an argument that is the array. -/
theorem GivesOn.unique {first second : Except Fault Value}
    (hfirst : function.GivesOn integers first) (hsecond : function.GivesOn integers second) :
    first = second := by
  have hargument : (pure (.array (integers.map .integer)) : Eval Value).Yields {}
      (.array (integers.map .integer)) {} := Eval.yields_pure.mpr ⟨rfl, rfl⟩
  have hrun := hfirst none (fun _ => pure (.array (integers.map .integer))) [] {} {} hargument
  rw [hsecond none (fun _ => pure (.array (integers.map .integer))) [] {} {} hargument] at hrun
  exact (congrArg Prod.fst hrun).symm

/-- All that a function can give on integers one of which is extreme. -/
theorem IsExtreme.givesOn_iff {extreme : Int} (hextreme : IsExtreme function integers extreme)
    {outcome : Except Fault Value} :
    function.GivesOn integers outcome ↔
      outcome = if ∀ number ∈ integers, number.natAbs < roundingLimit then
        .ok (.integer (nearestInteger extreme)) else .error (.number .integerTooLarge) := by
  have hgives : function.GivesOn integers
      (if ∀ number ∈ integers, number.natAbs < roundingLimit then
        .ok (.integer (nearestInteger extreme)) else .error (.number .integerTooLarge)) := by
    split
    case isTrue hbounded => exact hextreme.givesOn hbounded
    case isFalse hbeyond => exact hextreme.givesOn_of_beyond (by simpa using hbeyond)
  exact ⟨fun houtcome => houtcome.unique hgives, fun houtcome => houtcome ▸ hgives⟩

theorem IsExtreme.givesOn_perm {extreme : Int} {others : List Int}
    (hextreme : IsExtreme function integers extreme) (hperm : integers.Perm others)
    {outcome : Except Fault Value} :
    function.GivesOn integers outcome ↔ function.GivesOn others outcome := by
  rw [hextreme.givesOn_iff, (hextreme.perm hperm).givesOn_iff]
  simp only [hperm.mem_iff]

theorem givesOn_min_iff_max_neg {extreme : Int} (hextreme : IsExtreme .min integers extreme)
    {number : Int} :
    Function.min.GivesOn integers (.ok (.integer number)) ↔
      Function.max.GivesOn (integers.map Neg.neg) (.ok (.integer (-number))) := by
  rw [hextreme.givesOn_iff, hextreme.neg.givesOn_iff]
  simp only [List.forall_mem_map, Int.natAbs_neg, nearestInteger_neg]
  split
  · simp only [Except.ok.injEq, Value.integer.injEq, Int.neg_inj]
  · exact iff_of_false nofun nofun

/-- On an array of integers that all have a finite number next to them, the functions give the
least and the greatest element, rounded to 53 bits.  They fail on every other one.  What they
give does not depend on the order, and the one is the opposite of the other on the opposites. -/
theorem min_and_max_of_integers (hintegers : integers ≠ []) :
    ((∀ number ∈ integers, number.natAbs < roundingLimit) →
        ∃ lowest ∈ integers, ∃ highest ∈ integers,
          (∀ number ∈ integers, lowest ≤ number ∧ number ≤ highest) ∧
          Function.min.GivesOn integers (.ok (.integer (nearestInteger lowest))) ∧
          Function.max.GivesOn integers (.ok (.integer (nearestInteger highest))) ∧
          (Significant lowest.natAbs → nearestInteger lowest = lowest) ∧
          (Significant highest.natAbs → nearestInteger highest = highest)) ∧
      ((∃ number ∈ integers, roundingLimit ≤ number.natAbs) →
        Function.min.GivesOn integers (.error (.number .integerTooLarge)) ∧
          Function.max.GivesOn integers (.error (.number .integerTooLarge))) ∧
      (∀ others, integers.Perm others → ∀ outcome,
        (Function.min.GivesOn integers outcome ↔ Function.min.GivesOn others outcome) ∧
          (Function.max.GivesOn integers outcome ↔ Function.max.GivesOn others outcome)) ∧
      ∀ number, Function.min.GivesOn integers (.ok (.integer number)) ↔
        Function.max.GivesOn (integers.map Neg.neg) (.ok (.integer (-number))) := by
  obtain ⟨lowest, hlowest⟩ := exists_least hintegers
  obtain ⟨highest, hhighest⟩ := exists_greatest hintegers
  refine ⟨fun hbounded => ?_,
    fun hbeyond => ⟨hlowest.givesOn_of_beyond hbeyond, hhighest.givesOn_of_beyond hbeyond⟩,
    fun others hperm outcome => ⟨hlowest.givesOn_perm hperm, hhighest.givesOn_perm hperm⟩,
    fun number => givesOn_min_iff_max_neg hlowest⟩
  have hmin := hlowest.givesOn hbounded
  have hmax := hhighest.givesOn hbounded
  cases hlowest with
  | least hleastMem hleast =>
    cases hhighest with
    | greatest hgreatestMem hgreatest =>
      exact ⟨lowest, hleastMem, highest, hgreatestMem,
        fun number hnumber => ⟨hleast number hnumber, hgreatest number hnumber⟩, hmin, hmax,
        nearestInteger_of_significant, nearestInteger_of_significant⟩

/-- Two small integers and their opposites. -/
theorem min_and_max_of_pair :
    [3, -5] ≠ ([] : List Int) ∧ Function.min.GivesOn [3, -5] (.ok (.integer (-5))) ∧
      Function.max.GivesOn [-3, 5] (.ok (.integer 5)) := by
  have hpair : [3, -5] ≠ ([] : List Int) := by decide
  obtain ⟨hrounded, -, -, hopposite⟩ := min_and_max_of_integers hpair
  obtain ⟨lowest, hlowest, _, _, hbetween, hmin, -, hexact, -⟩ := hrounded (by decide +kernel)
  obtain rfl : lowest = -5 := by
    have hle := (hbetween (-5) (by decide)).1
    simp only [List.mem_cons, List.not_mem_nil, or_false] at hlowest
    omega
  rw [hexact (significant_of_le (by decide))] at hmin
  exact ⟨hpair, hmin, (hopposite (-5)).mp hmin⟩

/-- The least of one integer of 54 bits is not this integer. -/
theorem min_not_an_element :
    Function.min.GivesOn [9007199254740993] (.ok (.integer 9007199254740992)) ∧
      9007199254740992 ∉ ([9007199254740993] : List Int) := by
  refine ⟨?_, by decide⟩
  have hextreme : IsExtreme .min [9007199254740993] 9007199254740993 :=
    .least List.mem_cons_self (by simp)
  exact hextreme.givesOn (by decide +kernel)

end Function

end Patchwork
