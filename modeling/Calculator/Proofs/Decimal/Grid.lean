import Calculator.Proofs.Binary64.Rounds
import Mathlib.Tactic.Ring

/-!
The decimals of some number of places, as a grid of exact values.

The search for the shortest decimal tries only the two decimals around a number for each number of
places. The values that are rounded to a number have none in between that are not, so if any decimal
of a grid is rounded to the number, one of these two is: nothing is missed. A decimal counted in any
power of ten lies on the grid, or on a finer one.

Main statements: the decimal that is found on a grid is the nearest there (`closest_of_around?`),
and the grid with one place less than the shortest decimal has none that is rounded to the number
(`exists_coarse_grid`).
-/
namespace Calculator.Decimal

open Binary64

theorem toRat_eq (decimal : Decimal) : decimal.toRat = decimal.count / 10 ^ decimal.places := by
  rw [toRat, Rat.mkRat_eq_div]
  push_cast
  rfl

theorem toRat_mono {fewer more : Nat} (ordered : fewer ≤ more) (places : Nat) :
    toRat ⟨fewer, places⟩ ≤ toRat ⟨more, places⟩ := by
  rw [toRat_eq, toRat_eq]
  exact div_le_div_of_nonneg_right (Nat.cast_le.mpr ordered) (by positivity)

theorem toRat_mul (factor count places : Nat) :
    toRat ⟨factor * count, places⟩ = factor * toRat ⟨count, places⟩ := by
  rw [toRat_eq, toRat_eq, Nat.cast_mul, mul_div_assoc]

/-- The next finer grid takes ten steps for one. -/
theorem toRat_mul_ten (count places : Nat) :
    toRat ⟨10 * count, places + 1⟩ = toRat ⟨count, places⟩ := by
  rw [toRat_eq, toRat_eq, pow_succ', Nat.cast_mul, Nat.cast_ofNat,
    mul_div_mul_left _ _ (by decide)]

theorem mul_valueOf_lt_iff (factor magnitude count places : Nat) :
    factor * valueOf magnitude < count / 10 ^ places ↔
      factor * (units magnitude * 10 ^ places) < count * unitsPerOne := by
  have one : (0 : Rat) < unitsPerOne := Nat.cast_pos.mpr unitsPerOne_pos
  rw [valueOf, ← mul_div_assoc, div_lt_div_iff₀ one (by positivity), mul_assoc]
  norm_cast

/-- The exact value lies in the step that begins at its floor. -/
theorem floor_bounds (magnitude places : Nat) :
    (floor magnitude places).toRat ≤ valueOf magnitude ∧
      valueOf magnitude < (floor magnitude places).next.toRat := by
  have above (count : Nat) := mul_valueOf_lt_iff 1 magnitude count places
  simp only [Nat.cast_one, one_mul] at above
  simp only [toRat_eq, next, places_floor]
  rw [← not_lt, above, above, Nat.not_lt]
  exact ⟨Nat.div_mul_le_self _ _, Nat.lt_mul_of_div_lt (Nat.lt_succ_self _) unitsPerOne_pos⟩

theorem floorIsNearer_iff (magnitude places : Nat) : floorIsNearer magnitude places = true ↔
    2 * valueOf magnitude <
      (floor magnitude places).toRat + (floor magnitude places).next.toRat := by
  have sum : (floor magnitude places).toRat + (floor magnitude places).next.toRat =
      (2 * (floor magnitude places).count + 1 : Nat) / 10 ^ places := by
    simp only [toRat_eq, next, places_floor]
    push_cast
    ring
  have twice := mul_valueOf_lt_iff 2 magnitude (2 * (floor magnitude places).count + 1) places
  rw [Nat.cast_ofNat] at twice
  have split := Nat.div_add_mod' (units magnitude * 10 ^ places) unitsPerOne
  rw [sum, twice, floorIsNearer, decide_eq_true_iff, Nat.add_mul, Nat.one_mul, Nat.mul_assoc]
  simp only [floor]
  omega

section

variable {x : Binary64} (positive : x.negative = false)
include positive

theorem rounds_iff_readsBack (decimal : Decimal) :
    x.Rounds decimal.toRat ↔ decimal.readsBack x.magnitude = true := by
  have nonneg : 0 ≤ decimal.toRat := by
    rw [toRat_eq]
    positivity
  rw [rounds_iff_magnitude positive nonneg, readsBack_iff, toRat,
    magnitude_nearest_mkRat _ _ _ (Nat.ne_of_gt (Nat.pow_pos (by decide)))]
  rfl

variable (finite : x.isFinite = true)
include finite

/-- If a decimal is rounded to a number, so is the one of the two around it on the same side. -/
theorem around_of_rounds {count places : Nat} (rounds : x.Rounds (toRat ⟨count, places⟩)) :
    toRat ⟨count, places⟩ ≤ (floor x.magnitude places).toRat ∧
        x.Rounds (floor x.magnitude places).toRat ∨
      (floor x.magnitude places).next.toRat ≤ toRat ⟨count, places⟩ ∧
        x.Rounds (floor x.magnitude places).next.toRat := by
  obtain ⟨low, high⟩ := floor_bounds x.magnitude places
  have itself := rounds_toRat finite
  rw [toRat_of_nonneg positive] at itself
  rcases Nat.lt_or_ge (floor x.magnitude places).count count with more | fewer
  · exact Or.inr ⟨toRat_mono more places, itself.between rounds high.le (toRat_mono more places)⟩
  · exact Or.inl ⟨toRat_mono fewer places, rounds.between itself (toRat_mono fewer places) low⟩

/-- Where neither decimal around a number is rounded to it, none with as many places is. -/
theorem not_rounds_of_missed {places : Nat} (missed : around? x.magnitude places = none)
    (count : Nat) : ¬x.Rounds (toRat ⟨count, places⟩) := by
  intro rounds
  obtain ⟨lower, upper⟩ := (around?_eq_none_iff _ _).mp missed
  rw [Bool.eq_false_iff, ne_eq, ← rounds_iff_readsBack positive] at lower upper
  rcases around_of_rounds positive finite rounds with ⟨-, below⟩ | ⟨-, above⟩
  · exact lower below
  · exact upper above

/-- The decimal that the search takes for a number of places is the nearest with so many places. -/
theorem closest_of_around? {places : Nat} {decimal : Decimal}
    (found : around? x.magnitude places = some decimal) {count : Nat}
    (rounds : x.Rounds (toRat ⟨count, places⟩)) :
    |decimal.toRat - x.toRat| ≤ |toRat ⟨count, places⟩ - x.toRat| := by
  obtain ⟨low, high⟩ := floor_bounds x.magnitude places
  have nearer := floorIsNearer_iff x.magnitude places
  rw [toRat_of_nonneg positive]
  rcases around?_eq_some found with ⟨rfl, preferred⟩ | ⟨rfl, preferred⟩
  · rw [abs_of_nonpos (by linarith)]
    rcases around_of_rounds positive finite rounds with ⟨below, -⟩ | ⟨above, reads⟩
    · rw [abs_of_nonpos (by linarith)]
      linarith
    · have first := nearer.mp (preferred ((rounds_iff_readsBack positive _).mp reads))
      rw [abs_of_nonneg (by linarith)]
      linarith
  · rw [abs_of_nonneg (by linarith)]
    rcases around_of_rounds positive finite rounds with ⟨below, reads⟩ | ⟨above, -⟩
    · have second := preferred ((rounds_iff_readsBack positive _).mp reads)
      rw [Bool.eq_false_iff, ne_eq, nearer, not_lt] at second
      rw [abs_of_nonpos (by linarith)]
      linarith
    · rw [abs_of_nonneg (by linarith)]
      linarith

/-- No decimal with fewer places than the shortest one is rounded to a number that is not whole. -/
theorem exists_coarse_grid (broken : x.isIntegral = false) :
    ∃ places, around? x.magnitude (places + 1) = some (shortest x.magnitude) ∧
      ∀ count, ¬x.Rounds (toRat ⟨count, places⟩) := by
  have units : units x.magnitude % unitsPerOne ≠ 0 := by
    simpa [isIntegral] using broken
  obtain ⟨places, found, nothing⟩ :=
    exists_around?_shortest x.magnitude (magnitude_le_infinity finite)
  refine ⟨places, found, not_rounds_of_missed positive finite ?_⟩
  cases places with
  | zero =>
    exact (around?_eq_none_iff _ _).mpr
      ⟨readsBack_whole units (Nat.le_succ _), readsBack_whole units (Nat.le_refl _)⟩
  | succ fewer => exact nothing fewer (Nat.lt_succ_self _)

end

/-- Counts of any power of ten, seen from the grid of some number of places: on it, on the next
finer one, or finer still. -/
theorem grid_cases (count : Nat) (exponent : Int) (places : Nat) :
    (∃ steps : Nat, (count : Rat) * 10 ^ exponent = toRat ⟨steps, places⟩) ∨
      (count : Rat) * 10 ^ exponent = toRat ⟨count, places + 1⟩ ∨
      (count : Rat) * 10 ^ exponent ≤ toRat ⟨count, places + 2⟩ := by
  have scaled (total : Nat) : (count : Rat) * 10 ^ (-(total : Int)) = count / 10 ^ total := by
    rw [zpow_neg, zpow_natCast, ← div_eq_mul_inv]
  simp only [toRat_eq]
  rcases lt_or_ge (-((places + 1 : Nat) : Int)) exponent with coarse | fine
  · obtain ⟨tens, rfl⟩ : ∃ tens : Nat, exponent = tens - places :=
      ⟨(exponent + places).toNat, by omega⟩
    refine Or.inl ⟨count * 10 ^ tens, ?_⟩
    rw [zpow_sub₀ (by decide), zpow_natCast, zpow_natCast, ← mul_div_assoc]
    push_cast
    rfl
  · rcases Int.lt_or_eq_of_le fine with finer | rfl
    · have power : (10 : Rat) ^ exponent ≤ 10 ^ (-((places + 2 : Nat) : Int)) :=
        zpow_le_zpow_right₀ (by decide) (by omega)
      have shrunk := mul_le_mul_of_nonneg_left power (Nat.cast_nonneg count)
      exact Or.inr (Or.inr (shrunk.trans_eq (scaled _)))
    · exact Or.inr (Or.inl (scaled _))

end Calculator.Decimal
