import Mathlib.Logic.Function.Basic
import Patchwork.Expression.Operator
import Patchwork.Proofs.Entries
import Patchwork.Record

/-!
# Other marks

Values that are not numbers carry marks, which only tell them apart.  This file
gives them other marks and says that everything but the marks stays the same:
tests, texts and lookups do not see which marks there are, as long as different
marks stay different and the mark of a value that has not been told apart yet
stays what it is.
-/

namespace Patchwork

namespace Binary64

/-- The number with another mark if it is not one. -/
def remark (mark : Nat → Nat) : Binary64 → Binary64
  | .nan old => .nan (mark old)
  | number => number

variable {mark : Nat → Nat}

@[simp]
theorem remark_finite (negative : Bool) (units : Nat) (fits : fitsUnits units = true) :
    (finite negative units fits).remark mark = finite negative units fits := rfl

@[simp]
theorem remark_infinite (negative : Bool) :
    (infinite negative).remark mark = infinite negative := rfl

@[simp]
theorem isWhole_remark (number : Binary64) :
    (number.remark mark).isWhole = number.isWhole := by
  cases number <;> rfl

@[simp]
theorem isZero_remark (number : Binary64) : (number.remark mark).isZero = number.isZero := by
  cases number <;> rfl

@[simp]
theorem truncate?_remark (number : Binary64) :
    (number.remark mark).truncate? = number.truncate? := by
  cases number <;> rfl

@[simp]
theorem round?_remark (number : Binary64) : (number.remark mark).round? = number.round? := by
  cases number <;> rfl

@[simp]
theorem negate_remark (number : Binary64) : (number.remark mark).negate = number.negate := by
  cases number <;> rfl

@[simp]
theorem magnitude_remark (number : Binary64) :
    (number.remark mark).magnitude = number.magnitude.remark mark := by
  cases number <;> rfl

@[simp]
theorem add_remark_left (left right : Binary64) :
    add (left.remark mark) right = add left right := by
  cases left <;> rfl

@[simp]
theorem add_remark_right (left right : Binary64) :
    add left (right.remark mark) = add left right := by
  cases right <;> cases left <;> rfl

@[simp]
theorem subtract_remark (left right : Binary64) :
    subtract (left.remark mark) (right.remark mark) = subtract left right := by
  simp [subtract]

@[simp]
theorem multiply_remark (left right : Binary64) :
    multiply (left.remark mark) (right.remark mark) = multiply left right := by
  cases left <;> cases right <;> rfl

@[simp]
theorem divide_remark (left right : Binary64) :
    divide (left.remark mark) (right.remark mark) = divide left right := by
  cases left <;> cases right <;> rfl

@[simp]
theorem remainder?_remark (left right : Binary64) :
    remainder? (left.remark mark) (right.remark mark) = remainder? left right := by
  cases left <;> cases right <;> rfl

@[simp]
theorem less_remark_left (left right : Binary64) :
    less (left.remark mark) right = less left right := by
  cases left <;> cases right <;> rfl

@[simp]
theorem less_remark_right (left right : Binary64) :
    less left (right.remark mark) = less left right := by
  cases left <;> cases right <;> rfl

@[simp]
theorem atMost_remark (left right : Binary64) :
    atMost (left.remark mark) (right.remark mark) = atMost left right := by
  cases left <;> cases right <;> rfl

@[simp]
theorem text_remark (number : Binary64) :
    Shortest.text (number.remark mark) = Shortest.text number := by
  cases number <;> rfl

@[simp]
theorem floatDisplay_remark (number : Binary64) :
    floatDisplay (number.remark mark) = floatDisplay number := by
  simp [floatDisplay]

theorem same_remark (hmark : Function.Injective mark) (left right : Binary64) :
    same (left.remark mark) (right.remark mark) = same left right := by
  cases left with
  | nan old =>
    cases right with
    | nan other => simp [remark, same, hmark.eq_iff]
    | _ => rfl
  | _ => cases right <;> rfl

theorem remark_injective (hmark : Function.Injective mark) :
    Function.Injective (remark mark) := by
  intro left right heq
  cases left with
  | nan old =>
    cases right with
    | nan other =>
      simp only [remark, nan.injEq] at heq
      rw [hmark heq]
    | _ => cases heq
  | _ => cases right <;> first | exact heq | cases heq

/-! ## Numbers that have not been told apart yet -/

theorem remark_nan_zero (hzero : mark 0 = 0) : (nan 0).remark mark = nan 0 := by
  rw [remark, hzero]

@[simp]
theorem remark_ofUnits (negative : Bool) (units : Nat) :
    (ofUnits negative units).remark mark = ofUnits negative units := by
  unfold ofUnits
  split <;> rfl

@[simp]
theorem remark_ofRatio (negative : Bool) (numerator denominator : Nat) :
    (ofRatio negative numerator denominator).remark mark =
      ofRatio negative numerator denominator :=
  remark_ofUnits negative _

theorem remark_negate (hzero : mark 0 = 0) (number : Binary64) :
    number.negate.remark mark = number.negate := by
  cases number <;> simp [negate, remark_nan_zero hzero]

theorem remark_add (hzero : mark 0 = 0) (left right : Binary64) :
    (add left right).remark mark = add left right := by
  cases left <;> cases right <;>
    simp only [add, apply_ite (remark mark), remark_ofUnits, remark_infinite,
      remark_nan_zero hzero]

theorem remark_subtract (hzero : mark 0 = 0) (left right : Binary64) :
    (subtract left right).remark mark = subtract left right :=
  remark_add hzero left right.negate

theorem remark_multiply (hzero : mark 0 = 0) (left right : Binary64) :
    (multiply left right).remark mark = multiply left right := by
  cases left <;> cases right <;>
    simp only [multiply, apply_ite (remark mark), remark_ofUnits, remark_infinite,
      remark_nan_zero hzero]

theorem remark_divide (hzero : mark 0 = 0) (left right : Binary64) :
    (divide left right).remark mark = divide left right := by
  cases left <;> cases right <;>
    simp only [divide, apply_ite (remark mark), remark_ofUnits, remark_ofRatio,
      remark_infinite, remark_nan_zero hzero]

theorem eq_of_bounded? {number bounded : Binary64} (hbounded : number.bounded? = some bounded) :
    bounded = number := by
  cases number with
  | infinite negative => cases hbounded
  | _ =>
    cases hbounded
    rfl

theorem remark_of_ofInt? {number : Int} {rounded : Binary64}
    (hrounded : ofInt? number = some rounded) : rounded.remark mark = rounded := by
  unfold ofInt? at hrounded
  rw [eq_of_bounded? hrounded]
  exact remark_ofRatio _ _ _

theorem remark_of_integerQuotient {numerator denominator : Int} {quotient : Binary64}
    (hquotient : integerQuotient numerator denominator = .ok quotient) :
    quotient.remark mark = quotient := by
  unfold integerQuotient at hquotient
  cases hbounded : (ofRatio (decide (numerator < 0) != decide (denominator < 0))
      numerator.natAbs denominator.natAbs).bounded? with
  | none =>
    rw [hbounded] at hquotient
    cases hquotient
  | some bounded =>
    rw [hbounded] at hquotient
    cases hquotient
    rw [eq_of_bounded? hbounded]
    exact remark_ofRatio _ _ _

@[simp]
theorem remark_toBinary64 (negative : Bool) (decimal : Decimal) :
    (decimal.toBinary64 negative).remark mark = decimal.toBinary64 negative := by
  simp only [Decimal.toBinary64, apply_ite (remark mark), remark_ofUnits, remark_infinite]

theorem remark_of_float? (hzero : mark 0 = 0) {text : String} {number : Binary64}
    (hnumber : Numeral.float? text = some number) : number.remark mark = number := by
  unfold Numeral.float? at hnumber
  split at hnumber
  next negative body hsplit =>
    dsimp only at hnumber
    split at hnumber
    · cases hnumber
      rfl
    · split at hnumber
      · cases hnumber
        exact remark_nan_zero hzero
      · obtain ⟨decimal, -, rfl⟩ := Option.map_eq_some_iff.mp hnumber
        exact remark_toBinary64 _ _

end Binary64

namespace Plain

mutual

/-- The value with other marks on the numbers in it. -/
def remark (mark : Nat → Nat) : Plain → Plain
  | .float number => .float (number.remark mark)
  | .list items => .list (remarkItems mark items)
  | .mapping entries => .mapping (remarkEntries mark entries)
  | value => value

/-- The elements of a list with other marks. -/
def remarkItems (mark : Nat → Nat) : List Plain → List Plain
  | [] => []
  | item :: rest => remark mark item :: remarkItems mark rest

/-- The entries of a mapping with other marks. -/
def remarkEntries (mark : Nat → Nat) : List (Plain × Plain) → List (Plain × Plain)
  | [] => []
  | (key, value) :: rest => (remark mark key, remark mark value) :: remarkEntries mark rest

end

variable {mark : Nat → Nat}

theorem remarkEntries_eq_map (entries : List (Plain × Plain)) :
    remarkEntries mark entries = entries.map (Prod.map (remark mark) (remark mark)) := by
  induction entries with
  | nil => rfl
  | cons entry rest ih =>
    obtain ⟨key, value⟩ := entry
    rw [remarkEntries, ih, List.map_cons, Prod.map_apply]

@[simp]
theorem remark_null : Plain.null.remark mark = .null := rfl

@[simp]
theorem remark_bool (flag : Bool) : (Plain.bool flag).remark mark = .bool flag := rfl

@[simp]
theorem remark_str (text : String) : (Plain.str text).remark mark = .str text := rfl

mutual

@[simp]
theorem remark_id (value : Plain) : value.remark (fun number => number) = value := by
  cases value with
  | float number => cases number <;> rfl
  | list items => rw [remark, remarkItems_id items]
  | mapping entries => rw [remark, remarkEntries_id entries]
  | _ => rfl

theorem remarkItems_id (items : List Plain) : remarkItems (fun number => number) items = items := by
  cases items with
  | nil => rfl
  | cons item rest => rw [remarkItems, remark_id item, remarkItems_id rest]

theorem remarkEntries_id (entries : List (Plain × Plain)) :
    remarkEntries (fun number => number) entries = entries := by
  cases entries with
  | nil => rfl
  | cons entry rest =>
    obtain ⟨key, value⟩ := entry
    rw [remarkEntries, remark_id key, remark_id value, remarkEntries_id rest]

end

mutual

theorem remark_remark (first second : Nat → Nat) (value : Plain) :
    (value.remark first).remark second = value.remark (second ∘ first) := by
  cases value with
  | float number => cases number <;> rfl
  | list items =>
    rw [remark, remark, remark, remarkItems_remarkItems first second items]
  | mapping entries =>
    rw [remark, remark, remark, remarkEntries_remarkEntries first second entries]
  | _ => rfl

theorem remarkItems_remarkItems (first second : Nat → Nat) (items : List Plain) :
    remarkItems second (remarkItems first items) = remarkItems (second ∘ first) items := by
  cases items with
  | nil => rfl
  | cons item rest =>
    rw [remarkItems, remarkItems, remarkItems, remark_remark first second item,
      remarkItems_remarkItems first second rest]

theorem remarkEntries_remarkEntries (first second : Nat → Nat)
    (entries : List (Plain × Plain)) :
    remarkEntries second (remarkEntries first entries) =
      remarkEntries (second ∘ first) entries := by
  cases entries with
  | nil => rfl
  | cons entry rest =>
    obtain ⟨key, value⟩ := entry
    rw [remarkEntries, remarkEntries, remarkEntries, remark_remark first second key,
      remark_remark first second value, remarkEntries_remarkEntries first second rest]

end

/-! ## Tests -/

/-- The scalar with another mark. -/
def Scalar.remark (mark : Nat → Nat) : Scalar → Scalar
  | .fraction number => .fraction (number.remark mark)
  | scalar => scalar

theorem scalar?_remark (value : Plain) :
    (value.remark mark).scalar? = value.scalar?.map (Scalar.remark mark) := by
  cases value with
  | float number =>
    simp only [remark, scalar?, Binary64.isWhole_remark, Binary64.truncate?_remark]
    split <;> rfl
  | _ => rfl

theorem Scalar.remark_injective (hmark : Function.Injective mark) :
    Function.Injective (Scalar.remark mark) := by
  intro left right heq
  cases left <;> cases right <;>
    first
    | exact heq
    | cases heq
    | simp only [Scalar.remark, fraction.injEq] at heq
      rw [Binary64.remark_injective hmark heq]

theorem scalars_remark (hmark : Function.Injective mark) (left right : Plain) :
    ((left.remark mark).scalar? == (right.remark mark).scalar?) =
      (left.scalar? == right.scalar?) := by
  rw [scalar?_remark, scalar?_remark, Bool.eq_iff_iff, beq_iff_eq, beq_iff_eq]
  exact (Option.map_injective (Scalar.remark_injective hmark)).eq_iff

theorem same_remark_of_scalar (hmark : Function.Injective mark) {left : Plain}
    (hscalar : left.scalar?.isSome) (right : Plain) :
    same (left.remark mark) (right.remark mark) = same left right := by
  have hremark : (left.remark mark).scalar?.isSome := by
    rw [scalar?_remark, Option.isSome_map]
    exact hscalar
  rw [same_of_scalar (Or.inl hremark), same_of_scalar (Or.inl hscalar)]
  exact scalars_remark hmark left right

mutual

theorem same_remark (hmark : Function.Injective mark) (left right : Plain) :
    same (left.remark mark) (right.remark mark) = same left right := by
  cases left with
  | list items =>
    cases right with
    | list others => exact sameItems_remark hmark items others
    | _ => rfl
  | mapping entries =>
    cases right with
    | mapping others =>
      simp only [remark, same]
      rw [sameEntries_remark hmark entries others, remarkEntries_eq_map, remarkEntries_eq_map,
        List.length_map, List.length_map]
    | _ => rfl
  | null => exact same_remark_of_scalar hmark rfl right
  | bool flag => exact same_remark_of_scalar hmark rfl right
  | int number => exact same_remark_of_scalar hmark rfl right
  | float number =>
    refine same_remark_of_scalar hmark ?_ right
    simp only [scalar?]
    split <;> rfl
  | str text => exact same_remark_of_scalar hmark rfl right

theorem sameItems_remark (hmark : Function.Injective mark) (left right : List Plain) :
    sameItems (remarkItems mark left) (remarkItems mark right) = sameItems left right := by
  cases left with
  | nil => cases right <;> rfl
  | cons first rest =>
    cases right with
    | nil => rfl
    | cons other others =>
      simp only [remarkItems, sameItems]
      rw [same_remark hmark first other, sameItems_remark hmark rest others]

theorem sameEntries_remark (hmark : Function.Injective mark) (left right : List (Plain × Plain)) :
    sameEntries (remarkEntries mark left) (remarkEntries mark right) = sameEntries left right := by
  cases left with
  | nil => rfl
  | cons entry rest =>
    obtain ⟨key, value⟩ := entry
    simp only [remarkEntries, sameEntries]
    rw [sameEntries_remark hmark rest right, remarkEntries_eq_map, List.find?_map]
    have hkeys : (fun entry : Plain × Plain =>
        entry.1.scalar? == (remark mark key).scalar?) ∘ Prod.map (remark mark) (remark mark) =
        fun entry => entry.1.scalar? == key.scalar? := by
      funext other
      exact scalars_remark hmark other.1 key
    rw [hkeys]
    cases right.find? fun entry => entry.1.scalar? == key.scalar? with
    | none => rfl
    | some found =>
      simp only [Option.map_some, Prod.map_snd]
      rw [same_remark hmark value found.2]

end

@[simp]
theorem beq_remark (hmark : Function.Injective mark) (left right : Plain) :
    (left.remark mark == right.remark mark) = (left == right) :=
  same_remark hmark left right

end Plain

end Patchwork
