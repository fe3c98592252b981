import Calculator.Expr.Value
import Calculator.Proofs.Binary64.Nearest
import Mathlib.Algebra.Order.Field.Basic

/-!
Operations on finite numbers whose exact result is the value of a finite number.

Such a result is not changed by rounding, whatever sign a zero is given, so the operation is the one
on exact values. In the other direction an exact value says everything about the text of a number:
two numbers with the same value are the same but for the sign of a zero, which is not written.

Main statements: an operation with a representable result gives it exactly
(`Operator.apply_exact`), numbers with one value have one text (`text_eq_of_toRat_eq`), and the
text of a whole number is the integer in decimal notation (`text_of_toRat_eq_intCast`).
-/
namespace Calculator

namespace Binary64

section

variable {x y : Binary64}

theorem representable_iff (value : Rat) : Representable value ↔
    (nearest (value < 0) value).isFinite = true ∧ (nearest (value < 0) value).toRat = value := by
  refine ⟨fun representable => toRat_nearest representable ?_ ?_, fun exact => ⟨_, exact⟩⟩
  · simp
  · simpa using le_of_lt

instance (value : Rat) : Decidable (Representable value) :=
  decidable_of_iff _ (representable_iff value).symm

/-- Numbers of the same sign have values on the same side of zero. -/
theorem toRat_same_side (same : x.negative = y.negative) :
    0 ≤ x.toRat ∧ 0 ≤ y.toRat ∨ x.toRat ≤ 0 ∧ y.toRat ≤ 0 := by
  cases sign : x.negative with
  | false => exact Or.inl ⟨toRat_nonneg sign, toRat_nonneg (same ▸ sign)⟩
  | true => exact Or.inr ⟨toRat_nonpos sign, toRat_nonpos (same ▸ sign)⟩

theorem toRat_opposite_side (differ : x.negative ≠ y.negative) :
    0 ≤ x.toRat ∧ y.toRat ≤ 0 ∨ x.toRat ≤ 0 ∧ 0 ≤ y.toRat := by
  have other := Bool.eq_not_of_ne differ.symm
  cases sign : x.negative with
  | false => exact Or.inl ⟨toRat_nonneg sign, toRat_nonpos (by rw [other, sign]; rfl)⟩
  | true => exact Or.inr ⟨toRat_nonpos sign, toRat_nonneg (by rw [other, sign]; rfl)⟩

end

end Binary64

namespace Operator

/-- What an operator makes of exact values. -/
def exact : Operator → Rat → Rat → Rat
  | add => (· + ·)
  | subtract => (· - ·)
  | multiply => (· * ·)
  | divide => (· / ·)

/-- The sign that an exact result of zero gets. -/
def zeroSign : Operator → Binary64 → Binary64 → Bool
  | add, x, y => x.negative && y.negative
  | subtract, x, y => x.negative && !y.negative
  | multiply, x, y => x.negative != y.negative
  | divide, x, y => x.negative != y.negative

/-- The sign under which an exact result is rounded: its own, as far as it has one. -/
def resultSign (operator : Operator) (x y : Binary64) : Bool :=
  if operator.exact x.toRat y.toRat = 0 then operator.zeroSign x y
  else operator.exact x.toRat y.toRat < 0

section

variable {x y : Binary64} (operator : Operator)

theorem resultSign_of_neg (below : operator.exact x.toRat y.toRat < 0) :
    operator.resultSign x y = true := by
  simp [resultSign, ne_of_lt below, below]

theorem resultSign_of_pos (above : 0 < operator.exact x.toRat y.toRat) :
    operator.resultSign x y = false := by
  simp [resultSign, ne_of_gt above, le_of_lt above]

/-- Where the signs of the operands tell the side of the result, they tell its sign as well. -/
theorem resultSign_of_sides (signed : operator.zeroSign x y = (x.negative != y.negative))
    (same : x.negative = y.negative → 0 ≤ operator.exact x.toRat y.toRat)
    (differ : x.negative ≠ y.negative → operator.exact x.toRat y.toRat ≤ 0) :
    operator.resultSign x y = (x.negative != y.negative) := by
  rw [resultSign]
  split
  next => exact signed
  next nonzero =>
    rw [Bool.eq_iff_iff, decide_eq_true_iff, bne_iff_ne]
    exact ⟨fun below equal => absurd below (not_lt_of_ge (same equal)),
      fun unequal => lt_of_le_of_ne (differ unequal) nonzero⟩

variable (finiteX : x.isFinite = true) (finiteY : y.isFinite = true)
include finiteX finiteY

/-- Between finite operands an operator gives its exact result, rounded once. -/
theorem apply_of_isFinite (divisor : operator = .divide → y.isZero = false) :
    operator.apply x y =
      Binary64.nearest (operator.resultSign x y) (operator.exact x.toRat y.toRat) := by
  obtain ⟨numberX, boundedX⟩ := Binary64.regular_of_isFinite finiteX
  obtain ⟨numberY, boundedY⟩ := Binary64.regular_of_isFinite finiteY
  have negated : y.neg.negative = !y.negative := rfl
  cases operator with
  | add =>
    simp only [apply, Binary64.add, resultSign, exact, zeroSign, numberX, boundedX, numberY,
      boundedY, Bool.or_self, Bool.false_eq_true, if_false]
    congr
  | subtract =>
    simp only [apply, Binary64.sub, Binary64.add, resultSign, exact, zeroSign, numberX, boundedX,
      Binary64.isNaN_neg, Binary64.isInfinite_neg, numberY, boundedY, Binary64.toRat_neg, negated,
      ← sub_eq_add_neg, Bool.or_self, Bool.false_eq_true, if_false]
    congr
  | multiply =>
    rw [resultSign_of_sides multiply rfl
      (fun same => mul_nonneg_iff.mpr (Binary64.toRat_same_side same))
      fun differ => mul_nonpos_iff.mpr (Binary64.toRat_opposite_side differ)]
    simp only [apply, Binary64.mul, exact, numberX, boundedX, numberY, boundedY, Bool.or_self,
      Bool.false_eq_true, if_false]
  | divide =>
    rw [resultSign_of_sides divide rfl
      (fun same => div_nonneg_iff.mpr (Binary64.toRat_same_side same))
      fun differ => div_nonpos_iff.mpr (Binary64.toRat_opposite_side differ)]
    simp only [apply, Binary64.div, exact, numberX, boundedX, numberY, boundedY, divisor rfl,
      Bool.or_self, Bool.false_eq_true, if_false]

theorem apply_exact (divisor : operator = .divide → y.toRat ≠ 0)
    (representable : Binary64.Representable (operator.exact x.toRat y.toRat)) :
    (operator.apply x y).isFinite = true ∧
      (operator.apply x y).toRat = operator.exact x.toRat y.toRat := by
  rw [operator.apply_of_isFinite finiteX finiteY fun divides =>
    Bool.eq_false_iff.mpr (mt Binary64.toRat_of_isZero (divisor divides))]
  exact Binary64.toRat_nearest representable operator.resultSign_of_neg operator.resultSign_of_pos

end

end Operator

namespace Binary64

section

variable {x y : Binary64}

theorem isZero_iff_toRat (finite : x.isFinite = true) : x.isZero = true ↔ x.toRat = 0 := by
  refine ⟨toRat_of_isZero, fun zero => ?_⟩
  have size := magnitude_nearest_toRat finite false
  rw [isZero_iff, ← size, zero, magnitude_nearest_zero]

theorem text_of_isZero (zero : x.isZero = true) : x.text = "0" := by
  rw [text, (regular_of_isZero zero).1, if_neg Bool.false_ne_true, if_pos zero]

theorem text_eq_of_toRat_eq (finiteX : x.isFinite = true) (finiteY : y.isFinite = true)
    (same : x.toRat = y.toRat) : x.text = y.text := by
  have size : x.magnitude = y.magnitude := by
    rw [← magnitude_nearest_toRat finiteX false, same, magnitude_nearest_toRat finiteY]
  by_cases sign : x.negative = y.negative
  · rw [eq_of_magnitude_eq sign size]
  · -- Only zero is on both sides of zero, and it is written without its sign.
    have zero : x.toRat = 0 := by
      have sides := toRat_opposite_side sign
      rw [← same] at sides
      rcases sides with ⟨above, below⟩ | ⟨below, above⟩ <;> exact le_antisymm below above
    rw [text_of_isZero ((isZero_iff_toRat finiteX).mpr zero),
      text_of_isZero ((isZero_iff_toRat finiteY).mpr (same ▸ zero))]

theorem abs_toRat (x : Binary64) : |x.toRat| = valueOf x.magnitude := by
  have size : mkRat (units x.magnitude) unitsPerOne = valueOf x.magnitude := by
    rw [valueOf, Rat.mkRat_eq_div, Int.cast_natCast]
  rw [toRat, ← size]
  split
  · rw [abs_neg, abs_of_nonneg (size_nonneg _)]
  · exact abs_of_nonneg (size_nonneg _)

theorem units_of_toRat_eq_intCast {whole : Int} (value : x.toRat = whole) :
    units x.magnitude = whole.natAbs * unitsPerOne := by
  have positive : (unitsPerOne : Rat) ≠ 0 := Nat.cast_ne_zero.mpr (Nat.ne_of_gt unitsPerOne_pos)
  have size := abs_toRat x
  rw [value, ← Int.cast_abs, Int.abs_eq_natAbs, Int.cast_natCast, valueOf,
    eq_div_iff positive] at size
  exact_mod_cast size.symm

theorem text_of_toRat_eq_intCast (finite : x.isFinite = true) {whole : Int}
    (value : x.toRat = whole) : x.text = toString whole := by
  obtain ⟨isNumber, bounded⟩ := regular_of_isFinite finite
  have counted := units_of_toRat_eq_intCast value
  have sizeText : x.sizeText = Nat.repr whole.natAbs := by
    simp [Binary64.sizeText, bounded, isIntegral, counted, Nat.mul_div_cancel _ unitsPerOne_pos]
  by_cases zero : x.isZero = true
  · have nothing : whole = 0 := by
      rw [(isZero_iff_toRat finite).mp zero] at value
      exact_mod_cast value.symm
    rw [text_of_isZero zero, nothing]
    rfl
  · have nonzero : whole ≠ 0 := by
      rintro rfl
      exact zero ((isZero_iff_toRat finite).mpr (by rw [value, Int.cast_zero]))
    rw [text, isNumber, if_neg Bool.false_ne_true, if_neg zero, sizeText]
    -- The sign bit says on which side of zero the integer is, so its notation has the same sign.
    cases sign : x.negative with
    | false =>
      have above := toRat_nonneg sign
      rw [value, Int.cast_nonneg_iff] at above
      obtain ⟨count, rfl⟩ := Int.eq_ofNat_of_zero_le above
      rfl
    | true =>
      have below := toRat_nonpos sign
      rw [value, Int.cast_nonpos] at below
      obtain ⟨count, rfl⟩ := Int.eq_negSucc_of_lt_zero (lt_of_le_of_ne below nonzero)
      rfl

end

end Binary64
end Calculator
