import Calculator.Proofs.Decimal.Grid
import Calculator.Proofs.Numeral.Rounded
import Mathlib.Data.Nat.Log
import Mathlib.Tactic.IntervalCases

/-!
The text of a number that is not whole is the shortest decimal, among all decimals.

The search for it counts places. What it finds has the fewest significant digits of all decimals
that are rounded to the number, whatever power of ten they are counted in, and no other with as many
digits is nearer. On a coarser grid there is none. On a finer grid, decimals with as many digits are
below the leading power of ten of the one that is found, and if that has more than one digit, its
leading power is on the coarser grid. With a single digit it takes an estimate: where the power of
ten is above the number, the number is two units, and the power is near it.

Main statement: whole numbers are written in decimal notation, and others as the shortest decimal
(`text_shortest`).
-/
namespace Calculator

/-- A value with at most so many significant digits, counted in some power of ten. -/
def HasDigits (digits : Nat) (value : Rat) : Prop :=
  ∃ (count : Int) (exponent : Int), count.natAbs < 10 ^ digits ∧ value = count * 10 ^ exponent

theorem HasDigits.neg {digits : Nat} {value : Rat} (has : HasDigits digits value) :
    HasDigits digits (-value) := by
  obtain ⟨count, exponent, small, rfl⟩ := has
  exact ⟨-count, exponent, by rwa [Int.natAbs_neg], by rw [Int.cast_neg, neg_mul]⟩

namespace Binary64

/-- A decimal that is rounded to a number, with no digit too many, and as near as its digits
allow. -/
structure IsShortest (digits : Nat) (value : Rat) (x : Binary64) : Prop where
  reads : x.Rounds value
  hasDigits : HasDigits digits value
  fewest : ∀ other, x.Rounds other → ∀ fewer < digits, ¬HasDigits fewer other
  closest : ∀ other, x.Rounds other → HasDigits digits other →
    |value - x.toRat| ≤ |other - x.toRat|

theorem IsShortest.neg {x : Binary64} {digits : Nat} {value : Rat}
    (shortest : x.IsShortest digits value) : x.neg.IsShortest digits (-value) where
  reads := shortest.reads.neg
  hasDigits := shortest.hasDigits.neg
  fewest other rounds fewer less has :=
    shortest.fewest (-other) (x.neg_neg ▸ rounds.neg) fewer less has.neg
  closest other rounds has := by
    have near := shortest.closest (-other) (x.neg_neg ▸ rounds.neg) has.neg
    have flipped (decimal : Rat) : |(-decimal) - x.neg.toRat| = |decimal - x.toRat| := by
      rw [toRat_neg, neg_sub_neg, abs_sub_comm]
    rwa [flipped, ← neg_neg other, flipped]

end Binary64

namespace Decimal
open Binary64

/-- Where the number one lies between the powers of ten, counted in units. -/
theorem unitsPerOne_bounds :
    20 * 10 ^ 322 < unitsPerOne ∧ 100 * unitsPerOne ≤ 2050 * 10 ^ 322 := by
  rw [unitsPerOne, unitExponent_eq]
  decide +kernel

/-- Only few units are rounded to from far apart. -/
theorem lt_ten_of_wide {below : Nat}
    (wide : 10 * (units below + units (below + 1)) ≤
      9 * (units (below + 1) + units (below + 2))) : below + 1 < 10 := by
  have first := units_succ below
  have second : units (below + 2) = units (below + 1) + 2 ^ spacing (below + 1) :=
    units_succ (below + 1)
  have split := spacing_add_significand (below + 1)
  have steps : units (below + 1) = significand (below + 1) * 2 ^ spacing (below + 1) := rfl
  have finer : 2 ^ spacing below ≤ 2 ^ spacing (below + 1) := by
    apply Nat.pow_le_pow_right (by decide)
    simp only [spacing]
    omega
  -- The neighbours are at most a step away, so the number itself counts only a few steps.
  have few : significand (below + 1) < 10 := by
    have scaled : 2 * significand (below + 1) * 2 ^ spacing (below + 1) ≤
        19 * 2 ^ spacing (below + 1) := by
      rw [Nat.mul_assoc, ← steps]
      omega
    have counts := Nat.le_of_mul_le_mul_right scaled (Nat.two_pow_pos _)
    omega
  have finest : spacing (below + 1) = 0 := by
    by_contra coarse
    have large := le_significand (below + 1) (Nat.pos_of_ne_zero coarse)
    omega
  rw [finest] at split
  omega

/-- A few units directly below a power of ten are two units, and the power is 10 ^ -323. -/
theorem two_units {count places : Nat} (present : 0 < count) (few : count < 10)
    (less : count * 10 ^ places < unitsPerOne)
    (near : 2 * unitsPerOne ≤ (2 * count + 1) * 10 ^ places) :
    19 * unitsPerOne ≤ 20 * (count * 10 ^ places) := by
  obtain ⟨lower, upper⟩ := unitsPerOne_bounds
  generalize 322 = tens at lower upper
  -- With fewer places the power is more than twenty units, and with more places less than one.
  rcases Nat.lt_trichotomy places (tens + 1) with fewer | rfl | more
  · have power : 10 ^ places ≤ 10 ^ tens := Nat.pow_le_pow_right (by decide) (by omega)
    have product : (2 * count + 1) * 10 ^ places ≤ 19 * 10 ^ tens :=
      Nat.mul_le_mul (by omega) power
    omega
  · rw [Nat.pow_succ] at less near ⊢
    generalize 10 ^ tens = power at *
    interval_cases count <;> omega
  · have power : 10 ^ (tens + 2) ≤ 10 ^ places := Nat.pow_le_pow_right (by decide) more
    rw [Nat.pow_add] at power
    have least := Nat.mul_le_mul_right (10 ^ places) present
    rw [Nat.one_mul] at least
    omega

/-- The leading power of ten of a decimal with more than one digit is on the coarser grid, so what
is rounded to the same number lies above it. -/
theorem eq_zero_of_le_leading {x : Binary64} {places count tens : Nat}
    (coarse : ∀ count, ¬x.Rounds (toRat ⟨count, places⟩))
    (rounds : x.Rounds (toRat ⟨count, places + 1⟩)) (leading : 10 ^ tens ≤ count) {other : Rat}
    (roundsOther : x.Rounds other) (below : other ≤ toRat ⟨10 ^ tens, places + 1⟩) : tens = 0 := by
  by_contra more
  obtain ⟨fewer, rfl⟩ := Nat.exists_eq_succ_of_ne_zero more
  have power := roundsOther.between rounds below (toRat_mono leading _)
  rw [Nat.pow_succ', toRat_mul_ten] at power
  exact coarse _ power

section

variable {x : Binary64} (positive : x.negative = false) (nonzero : x.isZero = false)
include positive nonzero

/-- A power of ten above a number, and a decimal below nine tenths of it, both rounded to that
number: the power of ten is the nearer one. -/
theorem power_is_nearer (finite : x.isFinite = true) {places : Nat} {smaller : Rat}
    (above : valueOf x.magnitude < toRat ⟨1, places⟩) (rounds : x.Rounds (toRat ⟨1, places⟩))
    (apart : 10 * smaller ≤ 9 * toRat ⟨1, places⟩) (roundsSmaller : x.Rounds smaller) :
    toRat ⟨1, places⟩ + smaller ≤ 2 * valueOf x.magnitude := by
  have one : (0 : Rat) < unitsPerOne := Nat.cast_pos.mpr unitsPerOne_pos
  have lower := (roundsSmaller.midpoints positive finite).1
  have upper := (rounds.midpoints positive finite).2
  obtain ⟨below, size⟩ : ∃ below, x.magnitude = below + 1 :=
    Nat.exists_eq_succ_of_ne_zero (by simpa [isZero] using nonzero)
  rw [size] at above lower upper ⊢
  have reached := lower below (Nat.lt_succ_self below)
  -- The midpoints on either side of the number are as far apart as the two values.
  have few : below + 1 < 10 := by
    have wide : 10 * (valueOf below + valueOf (below + 1)) ≤
        9 * (valueOf (below + 1) + valueOf (below + 2)) := by linarith
    simp only [valueOf, ← add_div, ← mul_div_assoc, div_le_div_iff_of_pos_right one] at wide
    exact lt_ten_of_wide (by exact_mod_cast wide)
  have counted : valueOf (below + 1) = (below + 1 : Nat) / unitsPerOne := valueOf_of_lt (by omega)
  have next : valueOf (below + 2) = (below + 2 : Nat) / unitsPerOne := valueOf_of_lt (by omega)
  have power : (0 : Rat) < 10 ^ places := by positivity
  rw [toRat_eq, Nat.cast_one] at above upper apart ⊢
  rw [counted] at above upper ⊢
  have less : (below + 1) * 10 ^ places < unitsPerOne := by
    rw [div_lt_div_iff₀ one power, one_mul] at above
    exact_mod_cast above
  have near : 2 * unitsPerOne ≤ (2 * (below + 1) + 1) * 10 ^ places := by
    rw [next, ← add_div, ← mul_div_assoc, div_le_div_iff₀ power one] at upper
    have sum : 2 * (below + 1) + 1 = below + 1 + (below + 2) := by omega
    rw [sum, ← mul_one 2]
    exact_mod_cast upper
  have two := two_units (Nat.succ_pos below) few less near
  have scaled : 19 * (1 / 10 ^ places : Rat) ≤ 20 * ((below + 1 : Nat) / unitsPerOne) := by
    rw [← mul_div_assoc, ← mul_div_assoc, div_le_div_iff₀ power one, mul_one, mul_assoc]
    exact_mod_cast two
  linarith

/-- A decimal that is rounded to a number lies on the grid next to the last one that has none, or on
a finer one. -/
theorem exists_count {places : Nat} (coarse : ∀ count, ¬x.Rounds (toRat ⟨count, places⟩))
    {digits : Nat} {value : Rat} (rounds : x.Rounds value) (has : HasDigits digits value) :
    ∃ count : Nat, 0 < count ∧ count < 10 ^ digits ∧
      (value = toRat ⟨count, places + 1⟩ ∨ value ≤ toRat ⟨count, places + 2⟩) := by
  obtain ⟨signed, exponent, small, rfl⟩ := has
  have power : (0 : Rat) < 10 ^ exponent := zpow_pos (by decide) exponent
  have above : (0 : Rat) < signed * 10 ^ exponent :=
    lt_of_le_of_ne (rounds.nonneg positive) (rounds.ne_zero nonzero).symm
  obtain ⟨count, rfl⟩ : ∃ count : Nat, signed = count :=
    Int.eq_ofNat_of_zero_le (Int.cast_pos.mp (pos_of_mul_pos_left above power.le)).le
  rw [Int.cast_natCast] at above rounds ⊢
  refine ⟨count, Nat.cast_pos.mp (pos_of_mul_pos_left above power.le), small, ?_⟩
  rcases grid_cases count exponent places with ⟨steps, same⟩ | finer
  · exact absurd (same ▸ rounds) (coarse steps)
  · exact finer

/-- The step of a grid is no smaller than the decimal found there, and below nine tenths of it no
decimal is nearer. -/
theorem closest_of_apart (finite : x.isFinite = true) {places : Nat} {decimal : Decimal}
    (found : around? x.magnitude places = some decimal)
    (leading : toRat ⟨1, places⟩ ≤ decimal.toRat) {other : Rat} (rounds : x.Rounds other)
    (apart : 10 * other ≤ 9 * toRat ⟨1, places⟩) :
    |decimal.toRat - x.toRat| ≤ |other - x.toRat| := by
  have reads := (rounds_iff_readsBack positive _).mpr (readsBack_of_around? found).1
  have below : other ≤ toRat ⟨1, places⟩ := by
    have side := rounds.nonneg positive
    linarith
  have roundsStep := rounds.between reads below leading
  refine (closest_of_around? positive finite found roundsStep).trans ?_
  rw [toRat_of_nonneg positive]
  rcases le_or_gt (toRat ⟨1, places⟩) (valueOf x.magnitude) with low | high
  · rw [abs_of_nonpos (by linarith), abs_of_nonpos (by linarith)]
    linarith
  · have nearer := power_is_nearer positive nonzero finite high roundsStep apart rounds
    rw [abs_of_pos (by linarith), abs_of_nonpos (by linarith)]
    linarith

theorem isShortest_shortest (finite : x.isFinite = true) (broken : x.isIntegral = false) :
    ∃ digits, x.IsShortest digits (shortest x.magnitude).toRat := by
  obtain ⟨places, found, coarse⟩ := exists_coarse_grid positive finite broken
  obtain ⟨reads, samePlaces⟩ := readsBack_of_around? found
  rw [← rounds_iff_readsBack positive] at reads
  generalize shortest x.magnitude = chosen at *
  obtain ⟨count, _⟩ := chosen
  obtain rfl : _ = places + 1 := samePlaces
  have present : count ≠ 0 := by
    rintro rfl
    exact reads.ne_zero nonzero (by simp [toRat_eq])
  have low := Nat.pow_log_le_self 10 present
  have high := Nat.lt_pow_succ_log_self (by decide : 1 < 10) count
  generalize Nat.log 10 count = tens at low high
  -- A finer decimal with no more digits lies below the leading power of ten.
  have finest (steps : Nat) (few : steps ≤ 10 ^ (tens + 1)) :
      toRat ⟨steps, places + 2⟩ ≤ toRat ⟨10 ^ tens, places + 1⟩ := by
    rw [← toRat_mul_ten (10 ^ tens), ← Nat.pow_succ']
    exact toRat_mono few _
  refine ⟨tens + 1, reads, ?_, fun other rounds fewer less has => ?_, fun other rounds has => ?_⟩
  · refine ⟨count, -((places + 1 : Nat) : Int), high, ?_⟩
    rw [toRat_eq, zpow_neg, zpow_natCast, Int.cast_natCast, div_eq_mul_inv]
  · obtain ⟨steps, some, small, grid⟩ := exists_count positive nonzero coarse rounds has
    have power : 10 ^ fewer ≤ 10 ^ tens := Nat.pow_le_pow_right (by decide) (Nat.le_of_lt_succ less)
    have below : other ≤ toRat ⟨10 ^ tens, places + 1⟩ := by
      rcases grid with rfl | finer
      · exact toRat_mono (small.le.trans power) _
      · exact finer.trans (finest steps (by rw [Nat.pow_succ]; omega))
    have single := eq_zero_of_le_leading coarse reads low rounds below
    rw [single, Nat.pow_zero] at power
    omega
  · obtain ⟨steps, some, small, rfl | finer⟩ := exists_count positive nonzero coarse rounds has
    · exact closest_of_around? positive finite found rounds
    · have single := eq_zero_of_le_leading coarse reads low rounds
        (finer.trans (finest steps small.le))
      rw [single] at low small
      have apart : 10 * other ≤ 9 * toRat ⟨1, places + 1⟩ := by
        have digit : toRat ⟨steps, places + 2⟩ ≤ toRat ⟨9 * 1, places + 2⟩ :=
          toRat_mono (by omega) _
        have step := toRat_mul_ten 1 (places + 1)
        rw [toRat_mul] at digit step
        push_cast at digit step
        linarith
      exact closest_of_apart positive nonzero finite found (toRat_mono low _) rounds apart

end

end Decimal

namespace Binary64

variable {x : Binary64}

theorem exists_intCast_of_isIntegral (whole : x.isIntegral = true) :
    ∃ count : Int, x.toRat = count := by
  obtain ⟨count, product⟩ : unitsPerOne ∣ units x.magnitude :=
    Nat.dvd_of_mod_eq_zero (by simpa [isIntegral] using whole)
  have size : valueOf x.magnitude = count := by
    rw [valueOf, product, Nat.cast_mul,
      mul_div_cancel_left₀ _ (Nat.cast_ne_zero.mpr (Nat.ne_of_gt unitsPerOne_pos))]
  cases sign : x.negative with
  | false => exact ⟨count, by rw [toRat_of_nonneg sign, size, Int.cast_natCast]⟩
  | true => exact ⟨-count, by rw [toRat_of_nonpos sign, size, Int.cast_neg, Int.cast_natCast]⟩

section

variable (finite : x.isFinite = true) (nonzero : x.isZero = false) (broken : x.isIntegral = false)
include finite nonzero broken

/-- The shortest decimal for a number, under the sign of the number. -/
theorem isShortest_signed : ∃ digits, x.IsShortest digits
    (if x.negative then -(Decimal.shortest x.magnitude).toRat
      else (Decimal.shortest x.magnitude).toRat) := by
  cases sign : x.negative with
  | false =>
    rw [if_neg Bool.false_ne_true]
    exact Decimal.isShortest_shortest sign nonzero finite broken
  | true =>
    have flipped : x.neg.negative = false := by rw [negative_neg, sign, Bool.not_true]
    obtain ⟨digits, shortest⟩ :=
      Decimal.isShortest_shortest (x := x.neg) flipped nonzero finite broken
    have itself := shortest.neg
    rw [magnitude_neg, Binary64.neg_neg] at itself
    rw [if_pos rfl]
    exact ⟨digits, itself⟩

omit nonzero in
theorem decimalValue_numeral :
    Numeral.decimalValue x.numeral.text = (Decimal.shortest x.magnitude).toRat := by
  obtain ⟨_, places, _⟩ := shortest_of_not_integral finite broken
  rw [Numeral.decimalValue_eq, Numeral.ofText_text (plain_numeral finite).toProper, numeral,
    if_neg (Bool.eq_false_iff.mp broken), Numeral.value_decimal places]

end

/-- A whole number is written as an integer in decimal notation. Any other number is written as a
numeral behind its sign, and that is the shortest decimal for it: it is rounded to the number, no
decimal with fewer digits is, and none with as many digits is nearer. -/
theorem text_shortest (x : Binary64) (finite : x.isFinite = true) (nonzero : x.isZero = false) :
    (∀ whole : Int, x.toRat = whole → x.text = toString whole) ∧
      ((∀ whole : Int, x.toRat ≠ whole) → ∃ numeral digits,
        x.text.toList = (if x.negative then ['-'] else []) ++ numeral ∧
          Numeral.IsNumeral numeral ∧
          x.IsShortest digits
            (if x.negative then -Numeral.decimalValue numeral
              else Numeral.decimalValue numeral)) := by
  refine ⟨fun whole => text_of_toRat_eq_intCast finite, fun fractional => ?_⟩
  have broken : x.isIntegral = false := by
    rw [Bool.eq_false_iff]
    intro whole
    obtain ⟨count, value⟩ := exists_intCast_of_isIntegral whole
    exact fractional count value
  obtain ⟨digits, shortest⟩ := isShortest_signed finite nonzero broken
  refine ⟨x.numeral.text, digits, ?_, Numeral.exists_pattern (plain_numeral finite).toProper, ?_⟩
  · rw [text_toList finite, nonzero, Bool.not_false, Bool.and_true]
  · rwa [decimalValue_numeral finite broken]

/-- Numbers below a power of two are closer together than those above it. So the nearest decimal
with 16 digits, which ends in 801, is rounded to a neighbour here, and the next one is chosen. -/
theorem text_shortest_power_of_two :
    let x : Binary64 := ⟨true, 0x3D30000000000000, by decide⟩
    let numeral := "0.00000000000005684341886080802".toList
    x.isFinite = true ∧ x.isZero = false ∧ (∀ whole : Int, x.toRat ≠ whole) ∧
      x.text.toList = '-' :: numeral ∧
      ∃ digits, x.IsShortest digits (-Numeral.decimalValue numeral) := by
  intro x numeral
  have finite : x.isFinite = true := by decide
  have nonzero : x.isZero = false := by decide
  have fractional : ∀ whole : Int, x.toRat ≠ whole := by
    intro whole value
    have counted := units_of_toRat_eq_intCast value
    have broken : units x.magnitude % unitsPerOne ≠ 0 := by decide +kernel
    rw [counted, Nat.mul_mod_left] at broken
    exact broken rfl
  have text : x.text.toList = '-' :: numeral := by decide +kernel
  obtain ⟨other, digits, written, -, shortest⟩ := (text_shortest x finite nonzero).2 fractional
  obtain rfl : other = numeral := (List.cons.inj (written.symm.trans text)).2
  exact ⟨finite, nonzero, fractional, text, digits, shortest⟩

end Binary64
end Calculator
