import Calculator.Proofs.ReadBack
import Calculator.Proofs.Token.Division

/-!
The number of a literal: its exact value, correctly rounded.

The number that scanning finds is the exact value of the digits rounded to nearest, however long the
row of digits is. So how the value is written makes no difference, and greater values never have
smaller numbers.

Main statement: a literal that is not too large is scanned to one token, the number nearest to its
exact value (`scan_numeral`).
-/
namespace Calculator.Numeral

open Binary64

/-- A text of one of the forms that numerals have. -/
def IsNumeral (text : List Char) : Prop := ∃ pattern ∈ patterns, text ∈ pattern.matches'

theorem scan_of_isNumeral {source : String} (numeral : IsNumeral source.toList)
    (bounded : decimalValue source.toList < overflowBound) :
    Token.scan source =
      .ok [⟨.literal (nearest false (decimalValue source.toList)), 0, source.utf8ByteSize⟩] := by
  obtain ⟨pattern, listed, fits⟩ := numeral
  have longest : ∃ pattern ∈ patterns, Longest pattern source.toList [] :=
    ⟨pattern, listed, fits, fun more begins present => absurd (List.prefix_nil.mp begins) present⟩
  have stands : Token.Stands (.literal (nearest false (decimalValue source.toList)))
      source.toList [] := ⟨longest, isNumberOf_nearest bounded⟩
  have scans := Token.Scans.token stands (.done (0 + source.toList.length))
  rw [List.append_nil, Nat.zero_add, ← stands.length_bytes, Token.length_bytes] at scans
  exact (Token.scan_eq_ok_iff_scans _ _).mpr scans

theorem toRat_nearest_mono {value greater : Rat} (positive : 0 ≤ value)
    (ordered : value ≤ greater) : (nearest false value).toRat ≤ (nearest false greater).toRat := by
  rw [toRat_of_nonneg rfl, toRat_of_nonneg rfl]
  apply valueOf_strictMono.monotone
  apply magnitude_nearest_mono
  rwa [abs_of_nonneg positive, abs_of_nonneg (positive.trans ordered)]

/-- A literal that is not too large is scanned to one token, a number without a sign that is nearest
to its exact value, and even if another is equally near. Below the least normal number it is half a
subnormal step away at most. Another literal with no greater value has no greater number, and one
with the same value has the same number. -/
theorem scan_numeral (source : String) (numeral : IsNumeral source.toList)
    (bounded : decimalValue source.toList < overflowBound) :
    ∃ x : Binary64, Token.scan source = .ok [⟨.literal x, 0, source.utf8ByteSize⟩] ∧
      x.negative = false ∧ x.IsNearest (decimalValue source.toList) ∧
      (decimalValue source.toList < 1 / 2 ^ 1022 →
        |x.toRat - decimalValue source.toList| ≤ 1 / 2 ^ 1074 / 2) ∧
      ∀ other : String, IsNumeral other.toList →
        decimalValue other.toList ≤ decimalValue source.toList →
        ∃ y : Binary64, Token.scan other = .ok [⟨.literal y, 0, other.utf8ByteSize⟩] ∧
          y.toRat ≤ x.toRat ∧ (decimalValue other.toList = decimalValue source.toList → y = x) := by
  have number := isNumberOf_nearest bounded
  refine ⟨_, scan_of_isNumeral numeral bounded, rfl, number.nearest, fun tiny => ?_,
    fun other otherNumeral ordered => ?_⟩
  · rw [abs_toRat_sub number.rounds.below number.rounds.above, ← valueOf_one]
    apply abs_valueOf_nearest_sub_le
    rwa [abs_of_nonneg (decimalValue_nonneg _), valueOf_leastNormal]
  · exact ⟨_, scan_of_isNumeral otherNumeral (ordered.trans_lt bounded),
      toRat_nearest_mono (decimalValue_nonneg _) ordered, fun same => by rw [same]⟩

/-- Without its last digit this value is half way between two numbers, and the lower one is even.
The last digit makes the upper one nearer. -/
theorem scan_numeral_last_digit :
    let source := "9007199254740993.0000000000000001"
    let x : Binary64 := ⟨false, 0x4340000000000001, by decide⟩
    IsNumeral source.toList ∧ decimalValue source.toList < overflowBound ∧
      Token.scan source = .ok [⟨.literal x, 0, 33⟩] ∧ x.IsNearest (decimalValue source.toList) := by
  intro source x
  have all : ("9007199254740993".toList ++ "0000000000000001".toList).all Char.isDigit = true := by
    decide
  have digits : Proper ⟨"9007199254740993".toList, "0000000000000001".toList⟩ :=
    ⟨List.all_eq_true.mp all, by decide⟩
  have text : source.toList = text ⟨"9007199254740993".toList, "0000000000000001".toList⟩ := by
    decide
  have numeral : IsNumeral source.toList := text ▸ exists_pattern digits
  have bounded : decimalValue source.toList < overflowBound := by
    rw [decimalValue_eq, ← isFinite_number_iff]
    decide +kernel
  have scanned : Token.scan source = .ok [⟨.literal x, 0, 33⟩] := by decide +kernel
  obtain ⟨y, found, _, nearest, _⟩ := scan_numeral source numeral bounded
  cases scanned.symm.trans found
  exact ⟨numeral, bounded, scanned, nearest⟩

end Calculator.Numeral
