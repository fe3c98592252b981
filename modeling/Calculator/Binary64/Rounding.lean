import Calculator.Binary64.Basic

/-!
Rounding of exact values to the nearest binary64 number.

The magnitude nearest to a quotient is found in three steps: the quotient's leading bit fixes the
spacing of the magnitudes around it, the quotient is counted in steps of that spacing and rounded
to a whole number, a tie going to the even one, and the steps are added to the least magnitude of
that spacing. A count that rounds up to the next power of two is then the first magnitude of the
next spacing, with nothing to carry. From half a step below 2 to the power 1024 on, the result is
the infinity.

Main statements: half-to-even rounding is exact on multiples (`roundHalfEven_mul`), a common factor
of numerator and denominator does not matter (`nearestMagnitude_mul`), and a finite magnitude is
nearest to its own value (`nearestMagnitude_units`).
-/
namespace Calculator.Binary64

-- Powers of natural numbers are those of the core library, whatever else a module imports.
attribute [local instance (high)] instPowNat

/-- The whole number nearest to `num / den`, the even one of two that are equally near. -/
def roundHalfEven (num den : Nat) : Nat :=
  let whole := num / den
  let twice := 2 * (num % den)
  if twice < den then whole
  else if den < twice then whole + 1
  -- A tie goes up from an odd number only.
  else whole + whole % 2

/-- The magnitude nearest to `num / den` units. -/
def nearestMagnitude (num den : Nat) : Nat :=
  let spacing := (num / den).log2 - 52
  -- A count of steps that rounds up to 2 ^ 53 moves on to the next spacing by this addition.
  min infinityMagnitude (spacing * 2 ^ (52 : Nat) + roundHalfEven num (den * 2 ^ spacing))

theorem nearestMagnitude_le (num den : Nat) : nearestMagnitude num den ≤ infinityMagnitude :=
  Nat.min_le_left _ _

/-- The number of the given sign whose magnitude is nearest to the size of an exact value. -/
def nearest (negative : Bool) (value : Rat) : Binary64 :=
  ⟨negative, nearestMagnitude (value.num.natAbs * unitsPerOne) value.den,
    Nat.lt_of_le_of_lt (nearestMagnitude_le _ _) (by decide)⟩

@[simp]
theorem nearest_negative (negative : Bool) (value : Rat) :
    (nearest negative value).negative = negative := rfl

@[simp]
theorem isNaN_nearest (negative : Bool) (value : Rat) : (nearest negative value).isNaN = false := by
  rw [Bool.eq_false_iff, ne_eq, isNaN_iff, Nat.not_lt]
  exact nearestMagnitude_le _ _

theorem roundHalfEven_mul (count den : Nat) (positive : 0 < den) :
    roundHalfEven (count * den) den = count := by
  simp [roundHalfEven, Nat.mul_div_cancel _ positive, positive]

theorem roundHalfEven_mul_left (factor num den : Nat) (positive : 0 < factor) :
    roundHalfEven (factor * num) (factor * den) = roundHalfEven num den := by
  have twice : 2 * (factor * (num % den)) = factor * (2 * (num % den)) :=
    Nat.mul_left_comm _ _ _
  simp only [roundHalfEven, Nat.mul_div_mul_left _ _ positive, Nat.mul_mod_mul_left, twice,
    Nat.mul_lt_mul_left positive]

theorem nearestMagnitude_mul (factor num den : Nat) (positive : 0 < factor) :
    nearestMagnitude (factor * num) (factor * den) = nearestMagnitude num den := by
  simp only [nearestMagnitude, Nat.mul_div_mul_left _ _ positive, Nat.mul_assoc,
    roundHalfEven_mul_left _ _ _ positive]

theorem log2_units (magnitude : Nat) :
    (units magnitude).log2 - 52 = spacing magnitude := by
  have small := significand_lt magnitude
  by_cases coarse : 0 < spacing magnitude
  · have large := le_significand magnitude coarse
    have lower : 2 ^ (52 + spacing magnitude) ≤ units magnitude := by
      rw [units, Nat.pow_add]
      exact Nat.mul_le_mul_right _ large
    have upper : units magnitude < 2 ^ (52 + spacing magnitude + 1) := by
      rw [units, Nat.add_right_comm, Nat.pow_add]
      exact Nat.mul_lt_mul_of_pos_right small (Nat.two_pow_pos _)
    have nonzero : units magnitude ≠ 0 :=
      Nat.ne_of_gt (Nat.lt_of_lt_of_le (Nat.two_pow_pos _) lower)
    rw [(Nat.log2_eq_iff nonzero).mpr ⟨lower, upper⟩]
    omega
  · have finest : spacing magnitude = 0 := Nat.eq_zero_of_not_pos coarse
    have value : units magnitude = significand magnitude := by simp [units, finest]
    rw [finest, value]
    by_cases nothing : significand magnitude = 0
    · simp [nothing]
    · have := (Nat.log2_lt nothing).mpr small
      omega

theorem nearestMagnitude_units (magnitude : Nat) (finite : magnitude ≤ infinityMagnitude) :
    nearestMagnitude (units magnitude) 1 = magnitude := by
  simp only [nearestMagnitude, Nat.div_one, log2_units, Nat.one_mul]
  rw [units, roundHalfEven_mul _ _ (Nat.two_pow_pos _), spacing_add_significand]
  exact Nat.min_eq_right finite

end Calculator.Binary64
