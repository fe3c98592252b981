import Calculator.Proofs.Decimal.Shortest
import Calculator.Proofs.Numeral.Pattern
import Calculator.Decimal.Text

/-!
The numeral that a number is written as.

A number without its sign is written as a numeral: all digits of a whole number, or the digits of
the shortest decimal, cut at its places. The digits of a count are read back as the count, so the
value of the numeral is the decimal, and its number the one that was written.

Main statements: a finite number's text is its numeral behind a sign (`text_toList`), the numeral
is plain (`plain_numeral`) and stands for the number without its sign (`number_numeral`).
-/
namespace Calculator

section Digits

theorem eq_zero_of_digitChar {digit : Nat} (small : digit < 10)
    (zero : Nat.digitChar digit = '0') : digit = 0 := by
  have code := congrArg Char.toNat zero
  rw [Nat.toNat_digitChar_of_lt_ten small] at code
  exact Nat.add_eq_left.mp code

theorem head?_toDigits (n : Nat) (positive : 0 < n) : (Nat.toDigits 10 n).head? ≠ some '0' := by
  induction n using Nat.strong_induction_on with
  | _ n ih =>
    rw [Nat.toDigits_eq_if (by decide)]
    split
    next small =>
      intro zero
      have nothing := eq_zero_of_digitChar small (Option.some.inj zero)
      omega
    · -- The last digit comes off the end, and what is in front of it is a smaller number.
      rw [List.head?_append_of_ne_nil _ Nat.toDigits_ne_nil]
      exact ih (n / 10) (by omega) (by omega)

theorem getLast?_toDigits (n : Nat) :
    (Nat.toDigits 10 n).getLast? = some (Nat.digitChar (n % 10)) := by
  rw [Nat.toDigits_eq_if (by decide)]
  split
  next small => rw [Nat.mod_eq_of_lt small, List.getLast?_singleton]
  · rw [List.getLast?_concat]

end Digits

namespace Decimal

theorem length_placeDigits {count places : Nat} (fits : count < 10 ^ places)
    (positive : 0 < places) : (placeDigits count places).length = places := by
  have short := (Nat.length_toDigits_le_iff (by decide) positive).mpr fits
  rw [placeDigits, List.length_leftpad, Nat.max_eq_left short]

theorem ofDigitChars_placeDigits (count places : Nat) :
    Nat.ofDigitChars 10 (placeDigits count places) 0 = count := by
  rw [placeDigits, List.leftpad, Nat.ofDigitChars_append, Nat.ofDigitChars_replicate_zero,
    Nat.mul_zero, Nat.ofDigitChars_ten_toDigits]

theorem isDigit_placeDigits {count places : Nat} {c : Char}
    (member : c ∈ placeDigits count places) : c.isDigit = true := by
  rcases List.mem_append.mp member with filled | digit
  · rw [(List.mem_replicate.mp filled).2]
    rfl
  · exact Nat.isDigit_of_mem_toDigits (by decide) (by decide) digit

theorem getLast?_placeDigits (count places : Nat) :
    (placeDigits count places).getLast? = some (Nat.digitChar (count % 10)) := by
  rw [placeDigits, List.leftpad, List.getLast?_append_of_ne_nil _ Nat.toDigits_ne_nil,
    getLast?_toDigits]

/-- A decimal as a numeral, cut at its places. -/
def numeral (decimal : Decimal) : Numeral :=
  ⟨Nat.toDigits 10 (decimal.count / 10 ^ decimal.places),
    placeDigits (decimal.count % 10 ^ decimal.places) decimal.places⟩

end Decimal

namespace Numeral

/-- A whole number as a numeral. -/
def ofWhole (whole : Nat) : Numeral := ⟨Nat.toDigits 10 whole, []⟩

/-- A numeral without a zero that could be left out. -/
structure Plain (numeral : Numeral) : Prop extends Proper numeral where
  digitBefore : numeral.whole ≠ []
  leading : numeral.whole.head? = some '0' → numeral.whole = ['0']
  trailing : numeral.fraction.getLast? ≠ some '0'

theorem leading_toDigits (n : Nat) (zero : (Nat.toDigits 10 n).head? = some '0') :
    Nat.toDigits 10 n = ['0'] := by
  rcases Nat.eq_zero_or_pos n with rfl | positive
  · exact Nat.toDigits_zero 10
  · exact absurd zero (head?_toDigits n positive)

theorem plain_ofWhole (whole : Nat) : (ofWhole whole).Plain where
  isDigit c member := by
    rw [ofWhole, List.append_nil] at member
    exact Nat.isDigit_of_mem_toDigits (by decide) (by decide) member
  present := by simp [text, ofWhole]
  digitBefore := Nat.toDigits_ne_nil
  leading := leading_toDigits whole
  trailing := nofun

theorem plain_decimal {decimal : Decimal} (positive : 0 < decimal.places)
    (nonzero : decimal.count % 10 ≠ 0) : decimal.numeral.Plain where
  isDigit c member := by
    rcases List.mem_append.mp member with before | after
    · exact Nat.isDigit_of_mem_toDigits (by decide) (by decide) before
    · exact Decimal.isDigit_placeDigits after
  present := by simp [text, Decimal.numeral]
  digitBefore := Nat.toDigits_ne_nil
  leading := leading_toDigits _
  trailing := by
    have tens : 10 ∣ 10 ^ decimal.places := Nat.pow_dvd_pow 10 positive
    rw [Decimal.numeral, Decimal.getLast?_placeDigits, Nat.mod_mod_of_dvd _ tens]
    intro zero
    exact nonzero (eq_zero_of_digitChar (Nat.mod_lt _ (by decide)) (Option.some.inj zero))

theorem value_ofWhole (whole : Nat) : (ofWhole whole).value = mkRat whole 1 := by
  rw [value, ofWhole, List.append_nil, Decimal.digitsValue_eq, Nat.ofDigitChars_ten_toDigits]
  rfl

theorem value_decimal {decimal : Decimal} (positive : 0 < decimal.places) :
    decimal.numeral.value = decimal.toRat := by
  have length : decimal.numeral.fraction.length = decimal.places :=
    Decimal.length_placeDigits (Nat.mod_lt _ (Nat.pow_pos (by decide))) positive
  -- The digits behind the point are read on from those before it, each place making ten of one.
  have count : Decimal.digitsValue (decimal.numeral.whole ++ decimal.numeral.fraction) =
      decimal.count := by
    rw [Decimal.digitsValue_eq, Nat.ofDigitChars_append, Nat.ofDigitChars_eq_ofDigitChars_zero,
      length, Decimal.numeral, Nat.ofDigitChars_ten_toDigits, Decimal.ofDigitChars_placeDigits,
      Nat.div_add_mod]
  rw [value, count, length, Decimal.toRat]

end Numeral

namespace Binary64

theorem magnitude_nearest_mkRat (negative : Bool) (num den : Nat) (nonzero : den ≠ 0) :
    (nearest negative (mkRat num den)).magnitude = nearestMagnitude (num * unitsPerOne) den := by
  generalize reduced : mkRat num den = value
  -- A fraction is kept in lowest terms, and rounding does not mind the factor that is taken out.
  obtain ⟨factor, present, sameNum, sameDen⟩ := Rat.mkRat_num_den nonzero
    (show mkRat num den = ⟨value.num, value.den, value.den_nz, value.reduced⟩ from reduced)
  have size : num = factor * value.num.natAbs := by
    have sizes := congrArg Int.natAbs sameNum
    rwa [Int.natAbs_mul, Int.natAbs_natCast, Int.natAbs_natCast, Nat.mul_comm] at sizes
  rw [size, sameDen, Nat.mul_assoc, Nat.mul_comm value.den,
    nearestMagnitude_mul _ _ _ (Nat.pos_of_ne_zero present)]
  rfl

/-- The numeral that a finite number is written as, without a sign. -/
def numeral (x : Binary64) : Numeral :=
  if x.isIntegral then .ofWhole (units x.magnitude / unitsPerOne)
  else (Decimal.shortest x.magnitude).numeral

section

variable {x : Binary64} (finite : x.isFinite = true)
include finite

theorem magnitude_le_infinity : x.magnitude ≤ infinityMagnitude :=
  Nat.le_of_lt ((isFinite_iff x).mp finite)

theorem shortest_of_not_integral (broken : x.isIntegral = false) :
    (Decimal.shortest x.magnitude).readsBack x.magnitude = true ∧
      0 < (Decimal.shortest x.magnitude).places ∧
      (Decimal.shortest x.magnitude).count % 10 ≠ 0 := by
  apply Decimal.shortest_spec x.magnitude (magnitude_le_infinity finite)
  simpa [isIntegral] using broken

theorem plain_numeral : x.numeral.Plain := by
  rw [numeral]
  split
  · exact Numeral.plain_ofWhole _
  next broken =>
    obtain ⟨_, positive, nonzero⟩ := shortest_of_not_integral finite (Bool.eq_false_iff.mpr broken)
    exact Numeral.plain_decimal positive nonzero

theorem magnitude_number_numeral : x.numeral.number.magnitude = x.magnitude := by
  rw [numeral, Numeral.number]
  split
  next whole =>
    have divides : unitsPerOne ∣ units x.magnitude :=
      Nat.dvd_of_mod_eq_zero (by simpa [isIntegral] using whole)
    rw [Numeral.value_ofWhole, magnitude_nearest_mkRat _ _ _ Nat.one_ne_zero,
      Nat.div_mul_cancel divides, nearestMagnitude_units _ (magnitude_le_infinity finite)]
  next broken =>
    obtain ⟨back, positive, _⟩ := shortest_of_not_integral finite (Bool.eq_false_iff.mpr broken)
    have nonzero : 10 ^ (Decimal.shortest x.magnitude).places ≠ 0 :=
      Nat.ne_of_gt (Nat.pow_pos (by decide))
    rw [Numeral.value_decimal positive, Decimal.toRat, magnitude_nearest_mkRat _ _ _ nonzero]
    exact (Decimal.readsBack_iff _ _).mp back

theorem number_numeral : x.numeral.number = { x with negative := false } := by
  have sameMagnitude := magnitude_number_numeral finite
  have sameSign : x.numeral.number.negative = false := nearest_negative false _
  cases number : x.numeral.number with
  | mk negative magnitude bound =>
    rw [number] at sameMagnitude sameSign
    rw [mk.injEq]
    exact ⟨sameSign, sameMagnitude⟩

theorem sizeText_toList : x.sizeText.toList = x.numeral.text := by
  rw [sizeText, (regular_of_isFinite finite).2, if_neg Bool.false_ne_true, numeral]
  split
  · rw [Nat.toList_repr]
    simp [Numeral.text, Numeral.ofWhole]
  next broken =>
    obtain ⟨_, positive, _⟩ := shortest_of_not_integral finite (Bool.eq_false_iff.mpr broken)
    have filled : (Decimal.shortest x.magnitude).numeral.fraction ≠ [] := by
      rw [← List.length_pos_iff, Decimal.numeral,
        Decimal.length_placeDigits (Nat.mod_lt _ (Nat.pow_pos (by decide))) positive]
      exact positive
    simp only [Numeral.text, List.isEmpty_iff, filled, if_false]
    simp [Decimal.text, Decimal.numeral]

/-- A finite number's text is its numeral, with a minus in front of the negative ones but zero. -/
theorem text_toList :
    x.text.toList = (if x.negative && !x.isZero then ['-'] else []) ++ x.numeral.text := by
  rw [text, (regular_of_isFinite finite).1, if_neg Bool.false_ne_true]
  cases zero : x.isZero with
  | true =>
    -- Zero is written as the whole number that it is, so its numeral is no case of its own.
    have nothing : units x.magnitude = 0 := by
      rw [(isZero_iff x).mp zero]
      decide
    simp [numeral, isIntegral, nothing, Numeral.ofWhole, Numeral.text]
  | false =>
    rw [← sizeText_toList finite]
    cases x.negative <;> simp

end
end Binary64
end Calculator
