import Calculator.Decimal.Shortest
import Mathlib.Algebra.Group.Nat.Defs
import Mathlib.Data.Nat.Basic

/-!
The search for the shortest decimal: it ends, and what it ends with has no zero in its last place.

A decimal that ends in zero is one with a place less, and that one lies next to the same value, so
the search would have met it before. Without any place left it would be a whole number; whole
numbers of that size are numbers themselves and read back as nothing else.

Main statement: the shortest decimal of a value that is no whole number reads back, has a place and
ends in another digit than zero (`shortest_spec`).
-/
namespace Calculator

namespace Binary64

theorem units_steps {spacing count : Nat} (small : count < 2 ^ 53)
    (coarse : 0 < spacing → 2 ^ 52 ≤ count) :
    units (spacing * 2 ^ 52 + count) = count * 2 ^ spacing := by
  have same : Binary64.spacing (spacing * 2 ^ 52 + count) = spacing := by
    simp only [Binary64.spacing]
    rcases Nat.eq_zero_or_pos spacing with rfl | positive
    · omega
    · have large := coarse positive
      omega
  rw [units, significand, same, Nat.add_sub_cancel_left]

theorem units_nearestMagnitude (total : Nat) (fits : 2 ^ (total.log2 - 52) ∣ total)
    (bounded : total.log2 < 2000) : units (nearestMagnitude total 1) = total := by
  obtain ⟨count, product⟩ := fits
  -- The whole number has at most 53 bits above the spacing, so rounding takes nothing from it.
  have power : 0 < 2 ^ (total.log2 - 52) := Nat.two_pow_pos _
  have small : count < 2 ^ 53 := by
    have below : total < 2 ^ (total.log2 - 52) * 2 ^ 53 := by
      rw [← Nat.pow_add]
      apply Nat.lt_of_lt_of_le Nat.lt_log2_self
      exact Nat.pow_le_pow_right (by decide) (by omega)
    apply Nat.lt_of_mul_lt_mul_left
    rwa [← product]
  have coarse : 0 < total.log2 - 52 → 2 ^ 52 ≤ count := by
    intro positive
    have nonzero : total ≠ 0 := by
      rintro rfl
      simp at positive
    apply Nat.le_of_mul_le_mul_left _ power
    rw [← product, ← Nat.pow_add, Nat.sub_add_cancel (by omega)]
    exact Nat.log2_self_le nonzero
  have rounded : roundHalfEven total (2 ^ (total.log2 - 52)) = count := by
    have exact := roundHalfEven_mul count (2 ^ (total.log2 - 52)) power
    rwa [Nat.mul_comm, ← product] at exact
  have finite : (total.log2 - 52) * 2 ^ 52 + count ≤ infinityMagnitude := by
    simp only [infinityMagnitude]
    omega
  rw [nearestMagnitude, Nat.div_one, Nat.one_mul, rounded, Nat.min_eq_right finite,
    units_steps small coarse, Nat.mul_comm]
  exact product.symm

theorem units_nearestMagnitude_whole (whole : Nat) (bounded : whole ≤ 2 ^ 52) :
    units (nearestMagnitude (whole * unitsPerOne) 1) = whole * unitsPerOne := by
  have log2_lt : (whole * unitsPerOne).log2 < 53 + unitExponent := by
    rcases Nat.eq_zero_or_pos whole with rfl | positive
    · rw [Nat.zero_mul, Nat.log2_zero]
      omega
    · rw [Nat.log2_lt (Nat.mul_ne_zero (Nat.ne_of_gt positive) (Nat.ne_of_gt unitsPerOne_pos)),
        Nat.pow_add]
      exact Nat.mul_lt_mul_of_pos_right (Nat.lt_of_le_of_lt bounded (by decide)) unitsPerOne_pos
  apply units_nearestMagnitude
  · apply Nat.dvd_mul_left_of_dvd
    exact Nat.pow_dvd_pow 2 (by omega)
  · rw [unitExponent_eq] at log2_lt
    omega

theorem units_lt_of_not_whole {magnitude : Nat} (broken : units magnitude % unitsPerOne ≠ 0) :
    units magnitude < 2 ^ 52 * unitsPerOne := by
  have fine : spacing magnitude < unitExponent := by
    -- A spacing of one or more has only whole numbers on its grid.
    by_contra coarse
    apply broken
    apply Nat.mod_eq_zero_of_dvd
    rw [units]
    exact Nat.dvd_mul_left_of_dvd (Nat.pow_dvd_pow 2 (Nat.le_of_not_lt coarse)) _
  calc units magnitude
    _ < 2 ^ 53 * 2 ^ spacing magnitude :=
      Nat.mul_lt_mul_of_pos_right (significand_lt magnitude) (Nat.two_pow_pos _)
    _ = 2 ^ 52 * 2 ^ (spacing magnitude + 1) := by rw [← Nat.pow_add, ← Nat.pow_add]; congr 1; omega
    _ ≤ 2 ^ 52 * unitsPerOne := Nat.mul_le_mul_left _ (Nat.pow_le_pow_right (by decide) fine)

end Binary64

namespace Decimal
open Binary64

theorem around?_eq_none_iff (magnitude places : Nat) :
    around? magnitude places = none ↔
      (floor magnitude places).readsBack magnitude = false ∧
        (floor magnitude places).next.readsBack magnitude = false := by
  simp only [around?]
  cases lower : (floor magnitude places).readsBack magnitude with
  | true =>
    simp only [if_true, Bool.true_eq_false, false_and, iff_false]
    split <;> simp
  | false =>
    cases upper : (floor magnitude places).next.readsBack magnitude <;> simp

/-- What the search takes for a number of places, and which of two is the nearer. -/
theorem around?_eq_some {magnitude places : Nat} {decimal : Decimal}
    (found : around? magnitude places = some decimal) :
    decimal = floor magnitude places ∧
        ((floor magnitude places).next.readsBack magnitude = true →
          floorIsNearer magnitude places = true) ∨
      decimal = (floor magnitude places).next ∧
        ((floor magnitude places).readsBack magnitude = true →
          floorIsNearer magnitude places = false) := by
  simp only [around?] at found
  cases lower : (floor magnitude places).readsBack magnitude <;>
    cases upper : (floor magnitude places).next.readsBack magnitude <;>
    cases nearer : floorIsNearer magnitude places <;>
    simp_all

theorem count_floor (magnitude places : Nat) :
    (floor magnitude places).count = (floor magnitude (places + 1)).count / 10 := by
  simp only [floor]
  rw [Nat.div_div_eq_div_mul, Nat.pow_succ, ← Nat.mul_assoc, Nat.mul_div_mul_right _ _ (by decide)]

theorem magnitude_mul_ten (count places : Nat) :
    magnitude ⟨10 * count, places + 1⟩ = magnitude ⟨count, places⟩ := by
  have scaled := nearestMagnitude_mul 10 (count * unitsPerOne) (10 ^ places) (by decide)
  rw [magnitude, magnitude, Nat.pow_succ, Nat.mul_comm _ 10, Nat.mul_assoc]
  exact scaled

/-- A decimal found that ends in zero could have been found with one place less. -/
theorem readsBack_of_ends_in_zero {magnitude places : Nat} {decimal : Decimal}
    (found : around? magnitude (places + 1) = some decimal) (zero : decimal.count % 10 = 0) :
    (floor magnitude places).readsBack magnitude = true ∨
      (floor magnitude places).next.readsBack magnitude = true := by
  have shorter : readsBack ⟨decimal.count / 10, places⟩ magnitude = true := by
    obtain ⟨back, samePlaces⟩ := readsBack_of_around? found
    rw [readsBack_iff] at back ⊢
    rw [← magnitude_mul_ten, Nat.mul_div_cancel' (Nat.dvd_of_mod_eq_zero zero), ← samePlaces]
    exact back
  have digits := count_floor magnitude places
  -- The shorter decimal is one of the two that were tried before: the last digit of the lower one
  -- is cut off, and that of the upper one is a zero only if it carries.
  rcases around?_eq_some found with ⟨rfl, -⟩ | ⟨rfl, -⟩
  · left
    rw [← digits] at shorter
    exact shorter
  · right
    have carried : (floor magnitude (places + 1)).next.count / 10 =
        (floor magnitude places).next.count := by
      simp only [next] at zero ⊢
      omega
    rw [carried] at shorter
    exact shorter

theorem readsBack_whole {magnitude count : Nat} (broken : units magnitude % unitsPerOne ≠ 0)
    (near : count ≤ (floor magnitude 0).count + 1) :
    readsBack ⟨count, 0⟩ magnitude = false := by
  have small : (floor magnitude 0).count < 2 ^ 52 := by
    simp only [floor, Nat.pow_zero, Nat.mul_one]
    rw [Nat.div_lt_iff_lt_mul unitsPerOne_pos]
    exact units_lt_of_not_whole broken
  rw [Bool.eq_false_iff, ne_eq, readsBack_iff]
  intro back
  -- The whole number is a magnitude's value itself, so reading it back would make the value whole.
  apply broken
  have exact := units_nearestMagnitude_whole count (by omega)
  rw [Decimal.magnitude, Nat.pow_zero] at back
  rw [back] at exact
  rw [exact, Nat.mul_mod_left]

/-- The search ends at the first number of places where something is found. -/
theorem exists_around?_shortest (magnitude : Nat) (finite : magnitude ≤ infinityMagnitude) :
    ∃ places, around? magnitude (places + 1) = some (shortest magnitude) ∧
      ∀ fewer < places, around? magnitude (fewer + 1) = none := by
  cases search : (List.range' 1 unitExponent).findSome? (around? magnitude) with
  | none =>
    -- Nothing would be found where the value itself is one of the two that are tried.
    have last : unitExponent ∈ List.range' 1 unitExponent := by
      rw [List.mem_range'_1, unitExponent_eq]
      omega
    have nothing := List.findSome?_eq_none_iff.mp search unitExponent last
    have back := readsBack_exact magnitude finite
    rw [around?_eq_none_iff] at nothing
    exact absurd (back.symm.trans nothing.1) (by decide)
  | some decimal =>
    have taken : shortest magnitude = decimal := by rw [shortest, search, Option.getD_some]
    obtain ⟨before, places, after, range, found, nothing⟩ := List.findSome?_eq_some_iff.mp search
    obtain ⟨fewer, _, rfl, rest⟩ := List.range'_eq_append_iff.mp range
    have first : fewer + 1 = places := by
      have begins := (List.range'_eq_cons_iff.mp rest.symm).1
      omega
    refine ⟨fewer, ?_, fun smaller less => ?_⟩
    · rw [taken, first]
      exact found
    · apply nothing
      rw [List.mem_range'_1]
      omega

theorem shortest_spec (magnitude : Nat) (finite : magnitude ≤ infinityMagnitude)
    (broken : units magnitude % unitsPerOne ≠ 0) :
    (shortest magnitude).readsBack magnitude = true ∧ 0 < (shortest magnitude).places ∧
      (shortest magnitude).count % 10 ≠ 0 := by
  obtain ⟨places, found, nothing⟩ := exists_around?_shortest magnitude finite
  obtain ⟨back, samePlaces⟩ := readsBack_of_around? found
  refine ⟨back, samePlaces ▸ Nat.succ_pos places, fun zero => ?_⟩
  have shorter := readsBack_of_ends_in_zero found zero
  cases places with
  | zero =>
    have lower : (floor magnitude 0).readsBack magnitude = false :=
      readsBack_whole broken (Nat.le_succ _)
    have upper : (floor magnitude 0).next.readsBack magnitude = false :=
      readsBack_whole broken (Nat.le_refl _)
    simp [lower, upper] at shorter
  | succ fewer =>
    have missed := (around?_eq_none_iff _ _).mp (nothing fewer (Nat.lt_succ_self _))
    simp [missed.1, missed.2] at shorter

end Decimal
end Calculator
