import Calculator.Proofs.Binary64.Rounds
import Calculator.Proofs.Numeral.Pattern
import Mathlib.Tactic.FieldSimp
import Mathlib.Tactic.Positivity
import Mathlib.Tactic.Ring

/-!
What numerals are worth, and which of them are too large.

The exact value of a row of digits with an optional point is what each digit is worth at its place:
ones, tens and so on in front of the point, tenths, hundredths and so on behind it. Reading takes
all the digits as one whole number, scaled by the places behind the point, which comes to the same.
A numeral without digits in front of its point is less than one, whatever digits it has.

Main statements: a numeral's number is finite exactly if its value is below the overflow bound
(`isFinite_number_iff`), only a numeral that begins with a digit can reach that bound
(`whole_ne_nil_of_overflow`), and a finite number that is read is the one nearest to the exact value
(`isNumberOf_iff`).
-/
namespace Calculator.Numeral

open Binary64

def digitValue (c : Char) : Nat := c.toNat - '0'.toNat

/-- What digits in front of a point are worth: each place ten times as much as the one behind it. -/
def wholeValue : List Char → Rat
  | [] => 0
  | c :: rest => digitValue c * 10 ^ rest.length + wholeValue rest

/-- What digits behind a point are worth: each place a tenth of the one in front of it. -/
def fractionValue : List Char → Rat
  | [] => 0
  | c :: rest => (digitValue c + fractionValue rest) / 10

/-- The exact value of digits with an optional point among them. -/
def decimalValue (text : List Char) : Rat :=
  wholeValue (text.takeWhile (· != '.')) + fractionValue (text.dropWhile (· != '.')).tail

/-- The number that a text stands for: its exact value is within the range of finite numbers, and no
number without a sign is nearer to that value. -/
structure IsNumberOf (text : List Char) (x : Binary64) : Prop where
  bounded : decimalValue text < overflowBound
  positive : x.negative = false
  nearest : x.IsNearest (decimalValue text)

theorem ofDigitChars_lt {digits : List Char} (all : ∀ c ∈ digits, c.isDigit = true) :
    Nat.ofDigitChars 10 digits 0 < 10 ^ digits.length := by
  induction digits with
  | nil => simp
  | cons first digits ih =>
    have others := ih fun c member => all c (List.mem_cons_of_mem first member)
    have digit : first.toNat - '0'.toNat ≤ 9 :=
      Nat.sub_le_iff_le_add.mpr (Char.isDigit_iff_toNat.mp (all first List.mem_cons_self)).2
    have scaled := Nat.mul_le_mul_left (10 ^ digits.length) digit
    rw [Nat.ofDigitChars_cons, Nat.mul_zero, Nat.zero_add, Nat.ofDigitChars_eq_ofDigitChars_zero,
      List.length_cons, Nat.pow_succ]
    omega

theorem value_eq (numeral : Numeral) : numeral.value =
    (Nat.ofDigitChars 10 (numeral.whole ++ numeral.fraction) 0 : Rat) /
      10 ^ numeral.fraction.length := by
  rw [value, Decimal.digitsValue_eq, Rat.mkRat_eq_div]
  push_cast
  rfl

theorem value_nonneg (numeral : Numeral) : 0 ≤ numeral.value := by
  rw [value_eq]
  positivity

theorem ofDigitChars_append_eq (before after : List Char) :
    Nat.ofDigitChars 10 (before ++ after) 0 =
      10 ^ after.length * Nat.ofDigitChars 10 before 0 + Nat.ofDigitChars 10 after 0 := by
  rw [Nat.ofDigitChars_append]
  exact Nat.ofDigitChars_eq_ofDigitChars_zero

theorem ofDigitChars_cons_eq (c : Char) (rest : List Char) :
    Nat.ofDigitChars 10 (c :: rest) 0 =
      10 ^ rest.length * digitValue c + Nat.ofDigitChars 10 rest 0 :=
  ofDigitChars_append_eq [c] rest |>.trans (by simp [digitValue, Nat.ofDigitChars_cons])

theorem wholeValue_eq (digits : List Char) :
    wholeValue digits = (Nat.ofDigitChars 10 digits 0 : Rat) := by
  induction digits with
  | nil => rfl
  | cons c rest ih =>
    rw [wholeValue, ih, ofDigitChars_cons_eq]
    push_cast
    ring

theorem fractionValue_eq (digits : List Char) :
    fractionValue digits = (Nat.ofDigitChars 10 digits 0 : Rat) / 10 ^ digits.length := by
  induction digits with
  | nil => simp [fractionValue]
  | cons c rest ih =>
    rw [fractionValue, ih, ofDigitChars_cons_eq, List.length_cons, pow_succ]
    push_cast
    field_simp

theorem decimalValue_eq (text : List Char) : decimalValue text = (ofText text).value := by
  rw [value_eq, decimalValue, wholeValue_eq, fractionValue_eq, ofText, ofDigitChars_append_eq]
  push_cast
  field_simp

theorem decimalValue_nonneg (text : List Char) : 0 ≤ decimalValue text := by
  rw [decimalValue_eq]
  exact value_nonneg _

theorem isFinite_number_iff (numeral : Numeral) :
    numeral.number.isFinite = true ↔ numeral.value < overflowBound := by
  rw [number, isFinite_nearest_iff, abs_of_nonneg numeral.value_nonneg]

theorem value_lt_one {numeral : Numeral} (proper : numeral.Proper) (point : numeral.whole = []) :
    numeral.value < 1 := by
  have digits := ofDigitChars_lt fun c member =>
    proper.isDigit c (List.mem_append_right numeral.whole member)
  rw [value_eq, point, List.nil_append, div_lt_one (by positivity)]
  exact_mod_cast digits

theorem whole_ne_nil_of_overflow {numeral : Numeral} (proper : numeral.Proper)
    (large : overflowBound ≤ numeral.value) : numeral.whole ≠ [] := by
  intro point
  have small := value_lt_one proper point
  have one : (1 : Rat) ≤ overflowBound := by
    rw [overflowBound_eq, Nat.one_le_cast]
    exact Nat.succ_le_of_lt (by positivity)
  exact absurd (large.trans_lt small) (not_lt_of_ge one)

theorem IsNumberOf.rounds {text : List Char} {x : Binary64} (number : IsNumberOf text x) :
    x.Rounds (decimalValue text) := by
  have above := decimalValue_nonneg text
  exact {
    below := fun less => absurd less (not_lt_of_ge above)
    above := fun _ => number.positive
    inRange := fun _ => number.nearest
    overflow := fun large => absurd number.bounded (not_lt_of_ge (abs_of_nonneg above ▸ large)) }

theorem IsNumberOf.eq_nearest {text : List Char} {x : Binary64} (number : IsNumberOf text x) :
    x = Binary64.nearest false (decimalValue text) :=
  number.rounds.eq_nearest.trans (by rw [number.positive])

theorem isNumberOf_nearest {text : List Char} (bounded : decimalValue text < overflowBound) :
    IsNumberOf text (Binary64.nearest false (decimalValue text)) := by
  have above := decimalValue_nonneg text
  have rounds : (Binary64.nearest false (decimalValue text)).Rounds (decimalValue text) :=
    rounds_nearest (fun less => absurd less (not_lt_of_ge above)) fun _ => rfl
  exact ⟨bounded, rfl, rounds.inRange (by rwa [abs_of_nonneg above])⟩

/-- A text stands for a number exactly if reading it gives that number and it is finite. -/
theorem isNumberOf_iff {text : List Char} {x : Binary64} :
    IsNumberOf text x ↔ x = (ofText text).number ∧ x.isFinite = true := by
  rw [number, ← decimalValue_eq]
  constructor
  · intro number
    exact ⟨number.eq_nearest, number.nearest.finite⟩
  · rintro ⟨rfl, finite⟩
    rw [isFinite_nearest_iff, abs_of_nonneg (decimalValue_nonneg text)] at finite
    exact isNumberOf_nearest finite

end Calculator.Numeral
