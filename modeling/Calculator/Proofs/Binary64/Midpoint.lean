import Calculator.Proofs.Decimal.Written
import Mathlib.Algebra.Order.Field.Rat
import Mathlib.Tactic.Linarith

/-!
Where rounding passes from a magnitude to the next one.

Half way between the values of two neighbouring magnitudes is their midpoint. A value is rounded
beyond a magnitude exactly if it lies above the midpoint behind that magnitude, or on it when the
magnitude is odd. The infinity counts as the magnitude that comes next to the greatest finite one,
with the value that the coarsest spacing would give it.

Everything else about rounding is read off this one statement: greater values have no smaller
magnitudes, no magnitude is nearer than the one that is chosen, and of two that are equally near the
even one is chosen.

Main statements: the step at a midpoint (`lt_magnitude_nearest_iff`), monotonicity
(`magnitude_nearest_mono`), and on which side of the midpoints a value is, with the ties
(`midpoint_le_of_lt`, `le_midpoint_of_lt`).
-/
namespace Calculator.Binary64

/-- The next magnitude is one step of the spacing further. -/
theorem units_succ (magnitude : Nat) :
    units (magnitude + 1) = units magnitude + 2 ^ spacing magnitude := by
  have split_next := spacing_add_significand (magnitude + 1)
  have split_this := spacing_add_significand magnitude
  have step : spacing (magnitude + 1) = spacing magnitude ∨
      spacing (magnitude + 1) = spacing magnitude + 1 ∧ significand (magnitude + 1) = 2 ^ 52 := by
    simp only [significand, spacing]
    omega
  rcases step with same | ⟨coarser, least⟩
  · have next : significand (magnitude + 1) = significand magnitude + 1 := by
      rw [same] at split_next
      omega
    rw [units, same, next, Nat.add_mul, Nat.one_mul, ← units]
  · -- The least significand of a spacing is twice as many steps of the finer one below.
    have last : significand magnitude + 1 = 2 * 2 ^ 52 := by
      rw [coarser, least] at split_next
      omega
    calc units (magnitude + 1)
      _ = 2 ^ 52 * 2 ^ (spacing magnitude + 1) := by rw [units, coarser, least]
      _ = 2 * 2 ^ 52 * 2 ^ spacing magnitude := by
        rw [Nat.pow_succ (n := 2) (m := spacing magnitude)]
        omega
      _ = units magnitude + 2 ^ spacing magnitude := by
        rw [← last, Nat.add_mul, Nat.one_mul, ← units]

theorem units_strictMono : StrictMono units :=
  strictMono_nat_of_lt_succ fun magnitude => by
    rw [units_succ]
    exact Nat.lt_add_of_pos_right (Nat.two_pow_pos _)

/-- A quotient has 53 bits above the spacing around it, and no fewer unless that is the finest. -/
theorem steps_bounds (num : Nat) {den : Nat} (positive : 0 < den) :
    num < 2 ^ 53 * (den * 2 ^ ((num / den).log2 - 52)) ∧
      (0 < (num / den).log2 - 52 → 2 ^ 52 * (den * 2 ^ ((num / den).log2 - 52)) ≤ num) := by
  have scaled (bits : Nat) : 2 ^ bits * (den * 2 ^ ((num / den).log2 - 52)) =
      2 ^ (bits + ((num / den).log2 - 52)) * den := by
    rw [Nat.mul_left_comm, ← Nat.pow_add, Nat.mul_comm]
  constructor
  · rw [scaled, ← Nat.div_lt_iff_lt_mul positive]
    apply Nat.lt_of_lt_of_le Nat.lt_log2_self
    exact Nat.pow_le_pow_right (by decide) (by omega)
  · intro coarse
    have nonzero : num / den ≠ 0 := by
      intro zero
      simp [zero] at coarse
    rw [scaled, ← Nat.le_div_iff_mul_le positive, Nat.add_sub_cancel' (by omega)]
    exact Nat.log2_self_le nonzero

/-- A quotient is rounded beyond a count if it is more than half a step above, or exactly half a
step above an odd count. -/
theorem lt_roundHalfEven_iff (num count : Nat) {den : Nat} (positive : 0 < den) :
    count < roundHalfEven num den ↔
      (2 * count + 1) * den < 2 * num ∨ (2 * count + 1) * den = 2 * num ∧ count % 2 = 1 := by
  have split_num := Nat.div_add_mod num den
  have small := Nat.mod_lt num positive
  simp only [roundHalfEven]
  generalize num / den = whole at *
  generalize num % den = rest at *
  have product : (2 * count + 1) * den = 2 * (den * count) + den := by
    rw [Nat.add_mul, Nat.one_mul, Nat.mul_assoc, Nat.mul_comm count]
  rw [product]
  rcases Nat.lt_trichotomy count whole with fewer | rfl | more
  · have steps : den * (count + 1) ≤ den * whole := Nat.mul_le_mul_left den fewer
    rw [Nat.mul_add] at steps
    split
    · omega
    · split <;> omega
  · split
    · omega
    · split <;> omega
  · have steps : den * (whole + 1) ≤ den * count := Nat.mul_le_mul_left den more
    rw [Nat.mul_add] at steps
    split
    · omega
    · split <;> omega

theorem le_roundHalfEven_of_le {num count den : Nat} (positive : 0 < den)
    (reached : count * den ≤ num) : count ≤ roundHalfEven num den := by
  have whole : count ≤ num / den := (Nat.le_div_iff_mul_le positive).mpr reached
  simp only [roundHalfEven]
  split
  · exact whole
  · split <;> omega

theorem roundHalfEven_le_of_lt {num count den : Nat} (missed : num < count * den) :
    roundHalfEven num den ≤ count := by
  have whole : num / den < count := Nat.div_lt_of_lt_mul (Nat.mul_comm count den ▸ missed)
  simp only [roundHalfEven]
  split
  · exact whole.le
  · split <;> omega

/-- A number of steps that lies within a spacing makes a magnitude of that spacing. -/
theorem units_midpoint {spacing count : Nat} (small : count < 2 ^ 53)
    (coarse : 0 < spacing → 2 ^ 52 ≤ count) :
    units (spacing * 2 ^ 52 + count) + units (spacing * 2 ^ 52 + count + 1) =
      (2 * count + 1) * 2 ^ spacing := by
  have same : Binary64.spacing (spacing * 2 ^ 52 + count) = spacing := by
    simp only [Binary64.spacing]
    omega
  rw [units_succ, units_steps small coarse, same, ← Nat.add_assoc, ← Nat.two_mul, ← Nat.mul_assoc,
    Nat.add_mul, Nat.one_mul]

/-- A spacing's counts have 53 bits, so the next spacing begins twice as high as this one does. -/
theorem units_bottom (spacing : Nat) :
    units (spacing * 2 ^ 52 + 2 ^ 52) = 2 ^ 52 * 2 ^ spacing :=
  units_steps (by decide) fun _ => Nat.le_refl _

theorem units_top (spacing : Nat) : units (spacing * 2 ^ 52 + 2 ^ 53) = 2 ^ 53 * 2 ^ spacing := by
  have least : spacing * 2 ^ 52 + 2 ^ 53 = (spacing + 1) * 2 ^ 52 + 2 ^ 52 := by omega
  rw [least, units_bottom, Nat.pow_succ (n := 2) (m := spacing)]
  omega

theorem lt_nearestMagnitude_iff (num : Nat) {den magnitude : Nat} (positive : 0 < den)
    (finite : magnitude < infinityMagnitude) :
    magnitude < nearestMagnitude num den ↔
      (units magnitude + units (magnitude + 1)) * den < 2 * num ∨
        (units magnitude + units (magnitude + 1)) * den = 2 * num ∧ magnitude % 2 = 1 := by
  obtain ⟨small, large⟩ := steps_bounds num positive
  have capped (size : Nat) : magnitude < min infinityMagnitude size ↔ magnitude < size := by omega
  rw [nearestMagnitude, capped]
  generalize (num / den).log2 - 52 = spacing at *
  have step : 0 < den * 2 ^ spacing := Nat.mul_pos positive (Nat.two_pow_pos _)
  have steps (count : Nat) : count * 2 ^ spacing * den = count * (den * 2 ^ spacing) := by
    rw [Nat.mul_assoc, Nat.mul_comm den]
  have ascending : units magnitude * den < units (magnitude + 1) * den :=
    Nat.mul_lt_mul_of_pos_right (units_strictMono (Nat.lt_succ_self _)) positive
  -- The count of steps is one of the spacing's own, and the magnitude is below those, among them,
  -- or above them.
  by_cases below : 0 < spacing ∧ magnitude < spacing * 2 ^ 52 + 2 ^ 52
  · have beyond := large below.1
    have next : units (magnitude + 1) * den ≤ 2 ^ 52 * (den * 2 ^ spacing) := by
      rw [← steps, ← units_bottom]
      exact Nat.mul_le_mul_right den (units_strictMono.monotone below.2)
    have counted := le_roundHalfEven_of_le step beyond
    rw [Nat.add_mul]
    exact iff_of_true (by omega) (Or.inl (by omega))
  · by_cases above : spacing * 2 ^ 52 + 2 ^ 53 ≤ magnitude
    · have this : 2 ^ 53 * (den * 2 ^ spacing) ≤ units magnitude * den := by
        rw [← steps, ← units_top]
        exact Nat.mul_le_mul_right den (units_strictMono.monotone above)
      have counted := roundHalfEven_le_of_lt small
      rw [Nat.add_mul]
      exact iff_of_false (by omega) (by omega)
    · obtain ⟨count, rfl⟩ : ∃ count, magnitude = spacing * 2 ^ 52 + count :=
        Nat.exists_eq_add_of_le (by omega)
      rw [units_midpoint (by omega) (by omega), steps, Nat.add_lt_add_iff_left,
        lt_roundHalfEven_iff num count step]
      have parity : (spacing * 2 ^ 52 + count) % 2 = count % 2 := by omega
      rw [parity]

/-- What a magnitude stands for, as an exact value. -/
def valueOf (magnitude : Nat) : Rat := units magnitude / unitsPerOne

theorem valueOf_strictMono : StrictMono valueOf := fun _ _ less =>
  div_lt_div_of_pos_right (Nat.cast_lt.mpr (units_strictMono less))
    (Nat.cast_pos.mpr unitsPerOne_pos)

theorem abs_eq_natAbs_div (value : Rat) : |value| = (value.num.natAbs : Rat) / value.den := by
  rw [Rat.abs_def, Rat.divInt_eq_div, Int.cast_natCast, Int.cast_natCast]

/-- A value is rounded beyond a magnitude exactly from the midpoint behind it on, the midpoint
itself included if the magnitude is odd. -/
theorem lt_magnitude_nearest_iff (negative : Bool) (value : Rat) {magnitude : Nat}
    (finite : magnitude < infinityMagnitude) :
    magnitude < (nearest negative value).magnitude ↔
      valueOf magnitude + valueOf (magnitude + 1) < 2 * |value| ∨
        valueOf magnitude + valueOf (magnitude + 1) = 2 * |value| ∧ magnitude % 2 = 1 := by
  have positive : (0 : Rat) < value.den := Nat.cast_pos.mpr value.den_pos
  have one : (0 : Rat) < unitsPerOne := Nat.cast_pos.mpr unitsPerOne_pos
  rw [nearest, lt_nearestMagnitude_iff _ value.den_pos finite, abs_eq_natAbs_div, valueOf, valueOf,
    ← add_div, ← mul_div_assoc, div_lt_div_iff₀ one positive, div_eq_div_iff one.ne' positive.ne',
    mul_assoc]
  norm_cast

section

variable {negative other : Bool} {value greater : Rat} {magnitude : Nat}

theorem magnitude_nearest_mono (sizes : |value| ≤ |greater|) :
    (nearest negative value).magnitude ≤ (nearest other greater).magnitude := by
  by_contra less
  rw [not_le] at less
  have finite : (nearest other greater).magnitude < infinityMagnitude :=
    less.trans_le (nearestMagnitude_le _ _)
  -- The smaller value would lie beyond a midpoint that the greater one does not pass.
  have stays := (lt_magnitude_nearest_iff other greater finite).not.mp (lt_irrefl _)
  rcases (lt_magnitude_nearest_iff negative value finite).mp less with more | ⟨tie, odd⟩
  · exact stays (Or.inl (by linarith))
  · rcases lt_or_eq_of_le sizes with strict | same
    · exact stays (Or.inl (by linarith))
    · exact stays (Or.inr ⟨by rw [tie, same], odd⟩)

/-- A value is no nearer to a smaller magnitude than the one it is rounded to, and equally near only
to the one directly below an even one. -/
theorem midpoint_le_of_lt (less : magnitude < (nearest negative value).magnitude) :
    valueOf magnitude + valueOf (nearest negative value).magnitude ≤ 2 * |value| ∧
      (valueOf magnitude + valueOf (nearest negative value).magnitude = 2 * |value| →
        (nearest negative value).magnitude = magnitude + 1 ∧
          (nearest negative value).magnitude % 2 = 0) := by
  have bounded : (nearest negative value).magnitude ≤ infinityMagnitude := nearestMagnitude_le _ _
  obtain ⟨below, next⟩ : ∃ below, (nearest negative value).magnitude = below + 1 :=
    Nat.exists_eq_succ_of_ne_zero (by omega)
  have finite : below < infinityMagnitude := by omega
  have passed := (lt_magnitude_nearest_iff negative value finite).mp (next ▸ Nat.lt_succ_self _)
  rw [next]
  rcases Nat.lt_or_ge magnitude below with further | nearer
  · have apart := valueOf_strictMono further
    refine ⟨?_, fun tie => ?_⟩ <;> rcases passed with more | ⟨same, -⟩ <;> linarith
  · obtain rfl : magnitude = below := by omega
    rcases passed with more | ⟨same, odd⟩
    · exact ⟨more.le, fun tie => absurd tie more.ne⟩
    · exact ⟨same.le, fun _ => ⟨rfl, by omega⟩⟩

theorem le_midpoint_of_lt (more : (nearest negative value).magnitude < magnitude)
    (finite : (nearest negative value).isFinite = true) :
    2 * |value| ≤ valueOf (nearest negative value).magnitude + valueOf magnitude ∧
      (valueOf (nearest negative value).magnitude + valueOf magnitude = 2 * |value| →
        magnitude = (nearest negative value).magnitude + 1 ∧
          (nearest negative value).magnitude % 2 = 0) := by
  have stays := (lt_magnitude_nearest_iff negative value ((isFinite_iff _).mp finite)).not.mp
    (lt_irrefl _)
  simp only [not_or, not_and, not_lt] at stays
  obtain ⟨near, ties⟩ := stays
  rcases Nat.lt_or_ge ((nearest negative value).magnitude + 1) magnitude with further | nearer
  · have apart := valueOf_strictMono further
    exact ⟨by linarith, fun tie => by linarith⟩
  · obtain rfl : magnitude = (nearest negative value).magnitude + 1 := by omega
    refine ⟨near, fun tie => ⟨rfl, ?_⟩⟩
    have even := ties tie
    omega

end

end Calculator.Binary64
