import Calculator.Proofs.Binary64.Exact

/-!
What it means for a number to be an exact value correctly rounded.

Within the range of finite numbers it means that no finite number is nearer, and that the number has
an even significand if another one is equally near. From the overflow bound on it means to be the
infinity. In either case the sign is that of the value; a value of zero leaves it open.

The definition does not say how such a number is found. There is one for every value, the one that
rounding gives, and no other.

Main statements: rounding is correct (`rounds_nearest`), and a number that is a value correctly
rounded is the one that rounding gives (`Rounds.eq_nearest`).
-/
namespace Calculator.Binary64

/-- No finite number is nearer to a value, and if another is equally near, this one is even. -/
structure IsNearest (value : Rat) (x : Binary64) : Prop where
  finite : x.isFinite = true
  closest : ∀ y : Binary64, y.isFinite = true → |x.toRat - value| ≤ |y.toRat - value|
  even : ∀ y : Binary64, y.isFinite = true → y.toRat ≠ x.toRat →
    |y.toRat - value| = |x.toRat - value| → significand x.magnitude % 2 = 0

/-- A number is a value rounded to nearest, ties to even. -/
structure Rounds (value : Rat) (x : Binary64) : Prop where
  below : value < 0 → x.negative = true
  above : 0 < value → x.negative = false
  inRange : |value| < overflowBound → x.IsNearest value
  overflow : overflowBound ≤ |value| → x.isInfinite = true

theorem significand_mod_two (magnitude : Nat) : significand magnitude % 2 = magnitude % 2 := by
  have split := spacing_add_significand magnitude
  omega

theorem toRat_of_nonneg {x : Binary64} (positive : x.negative = false) :
    x.toRat = valueOf x.magnitude := by
  rw [← abs_toRat, abs_of_nonneg (toRat_nonneg positive)]

theorem toRat_of_nonpos {x : Binary64} (negative : x.negative = true) :
    x.toRat = -valueOf x.magnitude := by
  rw [← abs_toRat, abs_of_nonpos (toRat_nonpos negative), neg_neg]

/-- A number on the side of a value is as far from it as their sizes are apart. -/
theorem abs_toRat_sub {x : Binary64} {value : Rat} (below : value < 0 → x.negative = true)
    (above : 0 < value → x.negative = false) :
    |x.toRat - value| = |valueOf x.magnitude - (|value|)| := by
  cases sign : x.negative with
  | false =>
    have side : 0 ≤ value := not_lt.mp fun less => by simp [below less] at sign
    rw [toRat_of_nonneg sign, abs_of_nonneg side]
  | true =>
    have side : value ≤ 0 := not_lt.mp fun less => by simp [above less] at sign
    rw [toRat_of_nonpos sign, abs_of_nonpos side, ← abs_neg, neg_sub', neg_neg]

/-- Any number is at least as far from a value as their sizes are apart. -/
theorem abs_valueOf_sub_le (y : Binary64) (value : Rat) :
    |valueOf y.magnitude - (|value|)| ≤ |y.toRat - value| := by
  rw [← abs_toRat]
  exact abs_abs_sub_abs_le _ _

section

variable {negative : Bool} {value : Rat}

/-- No magnitude is nearer to a value than the one it is rounded to. Only a neighbour can be equally
near, and only of an even one. -/
theorem valueOf_nearest_closest (finite : (nearest negative value).isFinite = true)
    (magnitude : Nat) :
    |valueOf (nearest negative value).magnitude - (|value|)| ≤ |valueOf magnitude - (|value|)| ∧
      (|valueOf magnitude - (|value|)| =
          |valueOf (nearest negative value).magnitude - (|value|)| →
        magnitude = (nearest negative value).magnitude ∨
          (magnitude + 1 = (nearest negative value).magnitude ∨
            magnitude = (nearest negative value).magnitude + 1) ∧
          (nearest negative value).magnitude % 2 = 0) := by
  rcases Nat.lt_trichotomy magnitude (nearest negative value).magnitude with less | same | more
  · obtain ⟨near, ties⟩ := midpoint_le_of_lt less
    have apart := valueOf_strictMono less
    rw [abs_of_nonpos (a := valueOf magnitude - |value|) (by linarith)]
    refine ⟨abs_le.mpr ⟨by linarith, by linarith⟩, fun tie => Or.inr ?_⟩
    obtain ⟨next, even⟩ := ties (by rcases abs_cases (valueOf (nearest negative value).magnitude -
      |value|) with ⟨distance, _⟩ | ⟨distance, _⟩ <;> linarith)
    exact ⟨Or.inl next.symm, even⟩
  · exact ⟨le_of_eq (by rw [same]), fun _ => Or.inl same⟩
  · obtain ⟨near, ties⟩ := le_midpoint_of_lt more finite
    have apart := valueOf_strictMono more
    rw [abs_of_nonneg (a := valueOf magnitude - |value|) (by linarith)]
    refine ⟨abs_le.mpr ⟨by linarith, by linarith⟩, fun tie => Or.inr ?_⟩
    obtain ⟨next, even⟩ := ties (by rcases abs_cases (valueOf (nearest negative value).magnitude -
      |value|) with ⟨distance, _⟩ | ⟨distance, _⟩ <;> linarith)
    exact ⟨Or.inr next, even⟩

/-- Another number that is as near to a value is the neighbour of an even one. A value of zero has
the two zeros, which are even as well. -/
theorem even_of_tie (below : value < 0 → negative = true) (above : 0 < value → negative = false)
    (finite : (nearest negative value).isFinite = true) {y : Binary64}
    (differ : y.toRat ≠ (nearest negative value).toRat)
    (tie : |y.toRat - value| = |(nearest negative value).toRat - value|) :
    (nearest negative value).magnitude % 2 = 0 := by
  have distance := abs_toRat_sub (x := nearest negative value) below above
  obtain ⟨near, ties⟩ := valueOf_nearest_closest finite y.magnitude
  have further := abs_valueOf_sub_le y value
  rw [tie, distance] at further
  rcases ties (le_antisymm further near) with same | ⟨-, even⟩
  · -- Of the same size but another value: the tie is between a number and its negative.
    have opposite : y.toRat = -(nearest negative value).toRat := by
      refine (abs_eq_abs.mp ?_).resolve_left differ
      rw [abs_toRat, abs_toRat, same]
    rw [opposite, abs_eq_abs] at tie
    have zero : value = 0 := by
      rcases tie with equal | equal
      · exact absurd (by linarith) differ
      · linarith
    rw [zero, magnitude_nearest_zero]
  · exact even

/-- Rounding is correct, under a sign that fits the value. -/
theorem rounds_nearest (below : value < 0 → negative = true)
    (above : 0 < value → negative = false) : (nearest negative value).Rounds value where
  below := below
  above := above
  inRange bounded := by
    have finite := (isFinite_nearest_iff negative value).mpr bounded
    refine ⟨finite, fun y _ => ?_, fun y _ differ tie => ?_⟩
    · rw [abs_toRat_sub below above]
      exact (valueOf_nearest_closest finite y.magnitude).1.trans (abs_valueOf_sub_le y value)
    · rw [significand_mod_two]
      exact even_of_tie below above finite differ tie
  overflow large := by
    have infinite := (isFinite_nearest_iff negative value).not.mpr (not_lt_of_ge large)
    rw [isFinite_iff, Nat.not_lt] at infinite
    exact (isInfinite_iff _).mpr (Nat.le_antisymm (nearestMagnitude_le _ _) infinite)

variable {x : Binary64}

theorem Rounds.eq_nearest (rounds : x.Rounds value) :
    x = nearest x.negative value := by
  have other := rounds_nearest rounds.below rounds.above
  refine eq_of_magnitude_eq (nearest_negative _ _).symm ?_
  rcases lt_or_ge |value| overflowBound with bounded | large
  · obtain ⟨finite, closest, even⟩ := rounds.inRange bounded
    have others := other.inRange bounded
    have tie := le_antisymm (closest _ others.finite) (others.closest x finite)
    have sizes := tie
    rw [abs_toRat_sub rounds.below rounds.above, abs_toRat_sub other.below other.above] at sizes
    -- A neighbour at the same distance would be odd, so it would not be the one to choose.
    rcases (valueOf_nearest_closest others.finite x.magnitude).2 sizes with same | ⟨next, evenOther⟩
    · exact same
    · have differ : (nearest x.negative value).toRat ≠ x.toRat := by
        intro equal
        have size := congrArg abs equal
        rw [abs_toRat, abs_toRat, valueOf_strictMono.injective.eq_iff] at size
        simp [size] at next
      have evenThis := even _ others.finite differ tie.symm
      rw [significand_mod_two] at evenThis
      generalize (nearest x.negative value).magnitude = chosen at next evenOther ⊢
      omega
  · rw [(isInfinite_iff _).mp (rounds.overflow large), (isInfinite_iff _).mp (other.overflow large)]

/-- The sign and the magnitude that a value is rounded to make the number. -/
theorem rounds_of_magnitude (below : value < 0 → x.negative = true)
    (above : 0 < value → x.negative = false)
    (size : (nearest x.negative value).magnitude = x.magnitude) : x.Rounds value := by
  have same : nearest x.negative value = x := eq_of_magnitude_eq (nearest_negative _ _) size
  have rounds := rounds_nearest below above
  rwa [same] at rounds

theorem Rounds.nonneg (positive : x.negative = false) (rounds : x.Rounds value) : 0 ≤ value :=
  not_lt.mp fun less => by simp [rounds.below less] at positive

theorem Rounds.nonpos (negative : x.negative = true) (rounds : x.Rounds value) : value ≤ 0 :=
  not_lt.mp fun more => by simp [rounds.above more] at negative

theorem Rounds.ne_zero (nonzero : x.isZero = false) (rounds : x.Rounds value) : value ≠ 0 := by
  rintro rfl
  rw [Bool.eq_false_iff, ne_eq, isZero_iff, rounds.eq_nearest] at nonzero
  exact nonzero (magnitude_nearest_zero _)

/-- A value other than zero has its own sign, so only one number is that value rounded. -/
theorem Rounds.unique {y : Binary64} (first : x.Rounds value) (nonzero : value ≠ 0)
    (second : y.Rounds value) : x = y := by
  have signs : x.negative = y.negative := by
    rcases lt_or_gt_of_ne nonzero with below | above
    · rw [first.below below, second.below below]
    · rw [first.above above, second.above above]
  rw [first.eq_nearest, signs, ← second.eq_nearest]

/-- Every value between two that are rounded to a number is rounded to it as well. -/
theorem Rounds.between {least greatest : Rat} (first : x.Rounds least)
    (last : x.Rounds greatest) (lower : least ≤ value) (upper : value ≤ greatest) :
    x.Rounds value := by
  have sizeFirst := congrArg magnitude first.eq_nearest
  have sizeLast := congrArg magnitude last.eq_nearest
  refine rounds_of_magnitude (fun less => first.below (lower.trans_lt less))
    (fun more => last.above (more.trans_le upper)) ?_
  -- The two values are on the side of the number, so their sizes are in order on either side.
  cases sign : x.negative with
  | false =>
    have side := first.nonneg sign
    rw [sign] at sizeFirst sizeLast
    refine le_antisymm ((magnitude_nearest_mono ?_).trans_eq sizeLast.symm)
      (sizeFirst.trans_le (magnitude_nearest_mono ?_))
    · rwa [abs_of_nonneg (side.trans lower), abs_of_nonneg ((side.trans lower).trans upper)]
    · rwa [abs_of_nonneg side, abs_of_nonneg (side.trans lower)]
  | true =>
    have side := last.nonpos sign
    rw [sign] at sizeFirst sizeLast
    refine le_antisymm ((magnitude_nearest_mono ?_).trans_eq sizeFirst.symm)
      (sizeLast.trans_le (magnitude_nearest_mono ?_))
    · rw [abs_of_nonpos (upper.trans side), abs_of_nonpos ((lower.trans upper).trans side)]
      exact neg_le_neg lower
    · rw [abs_of_nonpos side, abs_of_nonpos (upper.trans side)]
      exact neg_le_neg upper

theorem Rounds.neg (rounds : x.Rounds value) : x.neg.Rounds (-value) := by
  have size := congrArg magnitude rounds.eq_nearest
  refine rounds_of_magnitude (fun below => ?_) (fun above => ?_) ?_
  · exact congrArg not (rounds.above (neg_neg_iff_pos.mp below))
  · exact congrArg not (rounds.below (neg_pos.mp above))
  · rw [magnitude_nearest_neg]
    exact size.symm

theorem rounds_toRat (finite : x.isFinite = true) : x.Rounds x.toRat := by
  refine rounds_of_magnitude (fun below => ?_) (fun above => ?_) (magnitude_nearest_toRat finite _)
  · by_contra positive
    exact absurd below (not_lt_of_ge (toRat_nonneg (Bool.eq_false_iff.mpr positive)))
  · by_contra negative
    exact absurd above (not_lt_of_ge (toRat_nonpos (Bool.not_eq_false _ ▸ negative)))

/-- A size is rounded to a number without a sign exactly if it is rounded to its magnitude. -/
theorem rounds_iff_magnitude (positive : x.negative = false) (above : 0 ≤ value) :
    x.Rounds value ↔ (nearest false value).magnitude = x.magnitude := by
  constructor
  · intro rounds
    rw [← positive, ← rounds.eq_nearest]
  · intro size
    exact rounds_of_magnitude (fun below => absurd below (not_lt_of_ge above)) (fun _ => positive)
      (positive ▸ size)

/-- A value lies between the midpoints on either side of the number that it is rounded to. -/
theorem Rounds.midpoints (positive : x.negative = false) (finite : x.isFinite = true)
    (rounds : x.Rounds value) :
    (∀ below < x.magnitude, valueOf below + valueOf x.magnitude ≤ 2 * value) ∧
      2 * value ≤ valueOf x.magnitude + valueOf (x.magnitude + 1) := by
  have side := abs_of_nonneg (rounds.nonneg positive)
  have size := congrArg magnitude rounds.eq_nearest
  constructor
  · intro below less
    rw [size] at less ⊢
    have lower := (midpoint_le_of_lt less).1
    rwa [side] at lower
  · rw [rounds.eq_nearest] at finite
    have upper := (le_midpoint_of_lt (Nat.lt_succ_self _) finite).1
    rwa [side, ← size] at upper

/-- The least magnitudes are one unit apart. -/
theorem units_of_lt {count : Nat} (small : count < 2 ^ 53) : units count = count := by
  have same : units (0 * 2 ^ 52 + count) = count * 2 ^ 0 := units_steps small nofun
  rwa [Nat.zero_mul, Nat.zero_add, Nat.pow_zero, Nat.mul_one] at same

theorem valueOf_of_lt {count : Nat} (small : count < 2 ^ 53) :
    valueOf count = count / unitsPerOne := by
  rw [valueOf, units_of_lt small]

theorem unitsPerOne_cast : (unitsPerOne : Rat) = 2 ^ unitExponent := by
  rw [unitsPerOne, Nat.cast_pow, Nat.cast_ofNat]

theorem valueOf_leastNormal : valueOf (2 ^ 52) = 1 / 2 ^ 1022 := by
  have exponent : unitExponent = 52 + 1022 := unitExponent_eq
  rw [valueOf_of_lt (by decide), unitsPerOne_cast, exponent, pow_add, Nat.cast_pow, Nat.cast_ofNat,
    div_mul_cancel_left₀ (by decide), one_div]

theorem valueOf_one : valueOf 1 = 1 / 2 ^ 1074 := by
  rw [valueOf_of_lt (by decide), unitsPerOne_cast, unitExponent_eq, Nat.cast_one]

/-- The numbers below the least normal one fill the gap to zero in steps of a unit, so no value
there is more than half a unit away from the nearest number. -/
theorem abs_valueOf_nearest_sub_le (small : |value| < valueOf (2 ^ 52)) :
    |valueOf (nearest negative value).magnitude - (|value|)| ≤ valueOf 1 / 2 := by
  have least : (2 : Nat) ^ 52 < infinityMagnitude := by decide
  have low : (nearest negative value).magnitude ≤ 2 ^ 52 := by
    have apart := valueOf_strictMono (Nat.lt_succ_self (2 ^ 52))
    rw [← not_lt, lt_magnitude_nearest_iff negative value least]
    rintro (more | ⟨tie, -⟩) <;> linarith
  have finite : (nearest negative value).isFinite = true :=
    (isFinite_iff _).mpr (low.trans_lt least)
  have next (count : Nat) (bound : count ≤ 2 ^ 52) :
      valueOf (count + 1) = valueOf count + valueOf 1 := by
    rw [valueOf_of_lt (by omega), valueOf_of_lt (by omega), valueOf_of_lt (by decide),
      Nat.cast_add, add_div]
  have upper := (le_midpoint_of_lt (Nat.lt_succ_self _) finite).1
  rw [next _ low] at upper
  cases size : (nearest negative value).magnitude with
  | zero =>
    have nothing : valueOf 0 = 0 := by rw [valueOf_of_lt (by decide), Nat.cast_zero, zero_div]
    have side := abs_nonneg value
    rw [size, nothing] at upper
    rw [nothing]
    exact abs_le.mpr ⟨by linarith, by linarith⟩
  | succ below =>
    have less : below < (nearest negative value).magnitude := by rw [size]; exact Nat.lt_succ_self _
    have lower := (midpoint_le_of_lt less).1
    rw [size] at lower upper low
    rw [next below (by omega)] at lower upper ⊢
    exact abs_le.mpr ⟨by linarith, by linarith⟩

end

end Calculator.Binary64
