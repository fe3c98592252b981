import Calculator.Binary64.Arithmetic
import Calculator.Proofs.Binary64.Midpoint

/-!
Rounding to nearest: which values stay finite, and which are not changed.

The infinity is reached at the midpoint behind the greatest finite magnitude, half a step of the
coarsest spacing below the next power of two. That magnitude is odd, so the midpoint itself goes to
the infinity as well. The value of a finite magnitude is between two midpoints and stays what it is.

Main statements: a value is rounded to a finite number exactly if its size is below the overflow
bound, 2 ^ 1024 - 2 ^ 970 (`isFinite_nearest_iff`), and the value of a finite number is rounded to
itself (`toRat_nearest`).
-/
namespace Calculator.Binary64

/-- Half a step below the least power of two that is too large: from here on, values are rounded to
the infinity. -/
def overflowBound : Rat := 2 ^ 1024 - 2 ^ 970

theorem overflowBound_eq : overflowBound = ((2 ^ 54 - 1) * 2 ^ 970 : Nat) := by
  have power : (2 : Rat) ^ 1024 = 2 ^ 54 * 2 ^ 970 := by rw [← pow_add]
  rw [overflowBound, power, Nat.cast_mul, Nat.cast_pow, ← sub_one_mul]
  norm_num

theorem infinityMagnitude_eq :
    infinityMagnitude = (unitExponent + 970 + 1) * 2 ^ 52 + (2 ^ 53 - 1) + 1 := by
  rw [unitExponent_eq]
  decide

/-- The overflow bound is the midpoint in front of the infinity. -/
theorem valueOf_last (last : Nat) (next : infinityMagnitude = last + 1) :
    valueOf last + valueOf infinityMagnitude = 2 * overflowBound := by
  have counted : last = (unitExponent + 970 + 1) * 2 ^ 52 + (2 ^ 53 - 1) := by
    rw [infinityMagnitude_eq] at next
    omega
  have small : 2 ^ 53 - 1 < 2 ^ 53 := by decide
  have midpoint := units_midpoint small fun _ : 0 < unitExponent + 970 + 1 => by decide
  have power (more : Nat) : 2 ^ (unitExponent + more + 1) = 2 * (2 ^ more * unitsPerOne) := by
    rw [Nat.pow_succ', Nat.pow_add, ← unitsPerOne, Nat.mul_comm unitsPerOne]
  have steps (count size : Nat) :
      count * (2 * (size * unitsPerOne)) = 2 * (count * size) * unitsPerOne := by
    rw [Nat.mul_left_comm, ← Nat.mul_assoc count, ← Nat.mul_assoc]
  have significand : 2 * (2 ^ 53 - 1) + 1 = 2 ^ 54 - 1 := by decide
  rw [← counted, ← next, power, steps, significand] at midpoint
  rw [valueOf, valueOf, ← add_div, div_eq_iff (Nat.cast_ne_zero.mpr (Nat.ne_of_gt unitsPerOne_pos)),
    overflowBound_eq, ← Nat.cast_add, midpoint, Nat.cast_mul, Nat.cast_mul, Nat.cast_ofNat]

theorem isFinite_nearest_iff (negative : Bool) (value : Rat) :
    (nearest negative value).isFinite = true ↔ |value| < overflowBound := by
  obtain ⟨last, next, odd⟩ : ∃ last, infinityMagnitude = last + 1 ∧ last % 2 = 1 :=
    ⟨_, infinityMagnitude_eq, by omega⟩
  have finite : last < infinityMagnitude := next.symm ▸ Nat.lt_succ_self last
  have beyond := (lt_magnitude_nearest_iff negative value finite).not
  -- The last finite magnitude is odd, so a value on the midpoint behind it goes to the infinity.
  rw [← next, valueOf_last last next, Nat.not_lt] at beyond
  rw [isFinite_iff, next, Nat.lt_succ_iff, beyond]
  constructor
  · intro missed
    by_contra reached
    rcases lt_or_eq_of_le (not_lt.mp reached) with more | tie
    · exact missed (Or.inl (by linarith))
    · exact missed (Or.inr ⟨by rw [tie], odd⟩)
  · rintro less (more | ⟨tie, -⟩) <;> linarith

theorem magnitude_nearest_zero (negative : Bool) : (nearest negative 0).magnitude = 0 := by
  simp [nearest, nearestMagnitude, roundHalfEven]

theorem magnitude_nearest_neg (negative : Bool) (value : Rat) :
    (nearest negative (-value)).magnitude = (nearest negative value).magnitude := by
  simp [nearest]

theorem magnitude_nearest_toRat {x : Binary64} (finite : x.isFinite = true) (negative : Bool) :
    (nearest negative x.toRat).magnitude = x.magnitude := by
  have scaled := nearestMagnitude_mul unitsPerOne (units x.magnitude) 1 unitsPerOne_pos
  rw [Nat.mul_one, nearestMagnitude_units _ (magnitude_le_infinity finite), Nat.mul_comm] at scaled
  have size := magnitude_nearest_mkRat negative (units x.magnitude) unitsPerOne
    (Nat.ne_of_gt unitsPerOne_pos)
  rw [scaled] at size
  rw [toRat]
  split
  · rw [magnitude_nearest_neg, size]
  · exact size

theorem size_nonneg (magnitude : Nat) : 0 ≤ mkRat (units magnitude) unitsPerOne := by
  rw [Rat.mkRat_eq_div]
  exact div_nonneg (Int.cast_nonneg (Int.natCast_nonneg _)) (Nat.cast_nonneg _)

theorem toRat_nonneg {x : Binary64} (positive : x.negative = false) : 0 ≤ x.toRat := by
  rw [toRat, positive, if_neg Bool.false_ne_true]
  exact size_nonneg x.magnitude

theorem toRat_nonpos {x : Binary64} (negative : x.negative = true) : x.toRat ≤ 0 := by
  rw [toRat, negative, if_pos rfl]
  exact neg_nonpos.mpr (size_nonneg x.magnitude)

theorem toRat_of_isZero {x : Binary64} (zero : x.isZero = true) : x.toRat = 0 := by
  have nothing : units x.magnitude = 0 := by
    rw [(isZero_iff x).mp zero]
    decide
  simp [toRat, nothing]

theorem eq_of_magnitude_eq {x y : Binary64} (sign : x.negative = y.negative)
    (size : x.magnitude = y.magnitude) : x = y := by
  obtain ⟨negative, magnitude, bound⟩ := x
  cases sign
  cases size
  rfl

/-- Whether an exact value is that of a finite number. -/
def Representable (value : Rat) : Prop := ∃ x : Binary64, x.isFinite = true ∧ x.toRat = value

/-- An exact value that a finite number has is not changed by rounding, under its own sign; zero
may have either sign. -/
theorem toRat_nearest {value : Rat} (representable : Representable value) {negative : Bool}
    (below : value < 0 → negative = true) (above : 0 < value → negative = false) :
    (nearest negative value).isFinite = true ∧ (nearest negative value).toRat = value := by
  obtain ⟨x, finite, rfl⟩ := representable
  have same := magnitude_nearest_toRat finite negative
  constructor
  · rwa [isFinite_iff, same, ← isFinite_iff]
  · by_cases sign : negative = x.negative
    · rw [eq_of_magnitude_eq sign same]
    · have flipped : nearest negative x.toRat = x.neg := by
        refine eq_of_magnitude_eq ?_ same
        exact Bool.eq_not_of_ne sign
      have zero : x.toRat = 0 := by
        cases signed : x.negative with
        | false =>
          refine le_antisymm ?_ (toRat_nonneg signed)
          by_contra positive
          exact sign ((above (not_le.mp positive)).trans signed.symm)
        | true =>
          refine le_antisymm (toRat_nonpos signed) ?_
          by_contra negated
          exact sign ((below (not_le.mp negated)).trans signed.symm)
      rw [flipped, toRat_neg, zero, neg_zero]

end Calculator.Binary64
