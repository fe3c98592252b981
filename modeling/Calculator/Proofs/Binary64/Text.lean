import Calculator.Proofs.Binary64.Exact
import Calculator.Proofs.ReadBack

/-!
What the text of a number tells about it.

A finite number is written with a sign, a point and digits, and the others with letters, so the
texts of the three kinds of numbers do not meet. The sign and the digits give a finite number back,
but for the sign of a zero, which is not written and not compared either.

Main statement: numbers are numerically equal exactly if they are written alike
(`numEq_iff_text_eq`).
-/
namespace Calculator

/-- A sign and a plain numeral can be told apart, since no numeral begins with a minus. -/
theorem Numeral.Plain.eq_of_signed_eq {numeral other : Numeral} (plain : numeral.Plain)
    (plainOther : other.Plain) {signed signedOther : Bool}
    (same : (if signed then ['-'] else []) ++ numeral.text =
      (if signedOther then ['-'] else []) ++ other.text) :
    signed = signedOther ∧ numeral = other := by
  have numerals : numeral.text = other.text → numeral = other :=
    eq_of_text_eq plain.toProper plainOther.toProper
  cases signed <;> cases signedOther
  · exact ⟨rfl, numerals same⟩
  · exact absurd same plain.head_ne_minus
  · exact absurd same.symm plainOther.head_ne_minus
  · exact ⟨rfl, numerals (List.cons.inj same).2⟩

theorem Numeral.Plain.signed_ne_minus {numeral : Numeral} (plain : numeral.Plain) {signed : Bool} :
    (if signed then ['-'] else []) ++ numeral.text ≠ ['-'] := by
  cases signed with
  | false => exact plain.head_ne_minus
  | true => exact fun alone => plain.present (List.cons.inj alone).2

namespace Binary64

variable {x y : Binary64}

/-- The characters that numbers are written with. -/
def textChars : List Char := '-' :: '.' :: Numeral.digitChars ++ ['a', 'f', 'i', 'n']

theorem numEq_self_iff (x : Binary64) : x.numEq x = true ↔ x.isNaN = false := by
  simp [numEq]

theorem text_of_isNaN (none : x.isNaN = true) : x.text = "nan" := by
  rw [text, if_pos none]

theorem text_of_isInfinite (infinite : x.isInfinite = true) :
    x.text = if x.negative then "-inf" else "inf" := by
  obtain ⟨isNumber, nonzero⟩ := regular_of_isInfinite infinite
  simp only [text, isNumber, nonzero, sizeText, infinite, Bool.false_eq_true, if_false, if_true]
  rfl

theorem mem_text_of_isFinite (finite : x.isFinite = true) {c : Char} (member : c ∈ x.text.toList) :
    c ∈ '-' :: '.' :: Numeral.digitChars := by
  rw [text_toList finite] at member
  rcases List.mem_append.mp member with sign | digit
  · split at sign
    · exact List.mem_singleton.mp sign ▸ List.mem_cons_self
    · cases sign
  · exact List.mem_cons_of_mem _ (Numeral.mem_of_mem_text (plain_numeral finite).toProper digit)

theorem mem_text (x : Binary64) {c : Char} (member : c ∈ x.text.toList) : c ∈ textChars := by
  rcases kind_cases x with none | infinite | finite
  · have listed : "nan".toList.all textChars.contains = true := by decide
    rw [text_of_isNaN none] at member
    simpa using List.all_eq_true.mp listed c member
  · have listed : ["-inf", "inf"].all (·.toList.all textChars.contains) = true := by decide
    rw [text_of_isInfinite infinite] at member
    have text := List.all_eq_true.mp listed (if x.negative then "-inf" else "inf")
      (by cases x.negative <;> simp)
    simpa using List.all_eq_true.mp text c member
  · exact List.mem_append_left _ (mem_text_of_isFinite finite member)

theorem text_toList_ne_nil (x : Binary64) : x.text.toList ≠ [] := by
  rcases kind_cases x with none | infinite | finite
  · rw [text_of_isNaN none]
    decide
  · rw [text_of_isInfinite infinite]
    cases x.negative <;> decide
  · rw [text_toList finite]
    exact List.append_ne_nil_of_right_ne_nil _ (plain_numeral finite).present

theorem isNaN_of_text_eq (none : x.text = "nan") : x.isNaN = true := by
  rcases kind_cases x with isNaN | infinite | finite
  · exact isNaN
  · have apart : ∀ sign : Bool, (if sign then "-inf" else "inf") ≠ "nan" := by decide
    exact absurd ((text_of_isInfinite infinite).symm.trans none) (apart x.negative)
  · have letter : 'n' ∈ x.text.toList := by rw [none]; decide
    exact absurd (mem_text_of_isFinite finite letter) (by decide)

theorem text_ne_minus (x : Binary64) : x.text ≠ "-" := by
  rcases kind_cases x with isNaN | infinite | finite
  · rw [text_of_isNaN isNaN]
    decide
  · rw [text_of_isInfinite infinite]
    cases x.negative <;> decide
  · intro minus
    have chars := (text_toList finite).symm.trans (congrArg String.toList minus)
    exact (plain_numeral finite).signed_ne_minus chars

/-- The text of a number that is infinite has a letter in it. -/
theorem text_ne_of_isInfinite (finite : x.isFinite = true) (infinite : y.isInfinite = true) :
    x.text ≠ y.text := by
  intro same
  have letter : 'i' ∈ x.text.toList := by
    rw [same, text_of_isInfinite infinite]
    cases y.negative <;> decide
  exact absurd (mem_text_of_isFinite finite letter) (by decide)

/-- A finite number's text tells its magnitude, and its sign unless it is zero. -/
theorem numEq_of_text_eq (finiteX : x.isFinite = true) (finiteY : y.isFinite = true)
    (same : x.text = y.text) : x.numEq y = true := by
  have texts := congrArg String.toList same
  rw [text_toList finiteX, text_toList finiteY] at texts
  obtain ⟨parts, numerals⟩ := (plain_numeral finiteX).eq_of_signed_eq (plain_numeral finiteY) texts
  have magnitudes : x.magnitude = y.magnitude := by
    rw [← magnitude_number_numeral finiteX, numerals, magnitude_number_numeral finiteY]
  have isNumber := (regular_of_isFinite finiteX).1
  have zeros : x.isZero = y.isZero := by rw [isZero, isZero, magnitudes]
  cases zero : y.isZero with
  | true => simp [numEq, isNumber, zeros, zero]
  | false =>
    have signs : x.negative = y.negative := by simpa [zeros, zero] using parts
    rw [← eq_of_magnitude_eq signs magnitudes, numEq_self_iff, isNumber]

/-- Numbers are equal exactly if they are written alike. -/
theorem numEq_iff_text_eq (isNumberX : x.isNaN = false) (isNumberY : y.isNaN = false) :
    x.numEq y = true ↔ x.text = y.text := by
  constructor
  · intro equal
    simp only [numEq, isNumberX, Bool.not_false, Bool.true_and, Bool.or_eq_true, beq_iff_eq,
      Bool.and_eq_true] at equal
    rcases equal with rfl | ⟨zeroX, zeroY⟩
    · rfl
    · rw [text_of_isZero zeroX, text_of_isZero zeroY]
  · intro same
    rcases (kind_cases x).resolve_left (by simp [isNumberX]) with infiniteX | finiteX <;>
      rcases (kind_cases y).resolve_left (by simp [isNumberY]) with infiniteY | finiteY
    · -- Two infinities have the same sign if they are written alike.
      rw [text_of_isInfinite infiniteX, text_of_isInfinite infiniteY] at same
      have signs : x.negative = y.negative := by
        revert same
        cases x.negative <;> cases y.negative <;> decide
      have magnitudes : x.magnitude = y.magnitude :=
        ((isInfinite_iff x).mp infiniteX).trans ((isInfinite_iff y).mp infiniteY).symm
      rw [eq_of_magnitude_eq signs magnitudes, numEq_self_iff, isNumberY]
    · exact absurd same.symm (text_ne_of_isInfinite finiteY infiniteX)
    · exact absurd same (text_ne_of_isInfinite finiteX infiniteY)
    · exact numEq_of_text_eq finiteX finiteY same

end Binary64
end Calculator
