import Calculator.Proofs.Grammar.Moment
import Calculator.Proofs.Text.Message
import Calculator.Proofs.Token.Composition

/-!
The negation of a whole source.

A source in parentheses behind a minus is scanned as itself, moved on, and read as the negation of
its tree, two levels further in and one node higher. So it is too deep if the source alone is near
one of the limits. Otherwise the sign of its value is the other one, and this shows in the text of
all numbers but those that have no sign there.

Main statement: a source that is negated gives the same text with the other sign, or is too deep
(`compute_negated`).
-/
namespace Calculator

open Grammar

/-- The text of a number with the other sign, where a sign is written at all. -/
def toggled (text : String) : String :=
  if text = "0" ∨ text = "nan" then text
  else match text.toList with
    | '-' :: rest => String.ofList rest
    | _ => "-" ++ text

theorem toggled_minus (text : String) : toggled ("-" ++ text) = text := by
  have chars : ("-" ++ text).toList = '-' :: text.toList := by
    rw [String.toList_append]
    rfl
  have shown {other : String} (first : other.toList.head? ≠ some '-') : "-" ++ text ≠ other := by
    rintro rfl
    exact first (by rw [chars]; rfl)
  rw [toggled, if_neg (not_or.mpr ⟨shown (by decide), shown (by decide)⟩), chars]
  exact String.ofList_toList

theorem toggled_unsigned {text : String} (shown : ¬ (text = "0" ∨ text = "nan"))
    (unsigned : ∀ rest, text.toList ≠ '-' :: rest) : toggled text = "-" ++ text := by
  rw [toggled, if_neg shown]
  split
  next rest signed => exact absurd signed (unsigned rest)
  next => rfl

namespace Binary64

variable {x : Binary64}

theorem text_of_negative (isNumber : x.isNaN = false) (nonzero : x.isZero = false)
    (negative : x.negative = true) : x.text = "-" ++ x.sizeText := by
  simp [text, isNumber, nonzero, negative]

theorem text_of_positive (isNumber : x.isNaN = false) (nonzero : x.isZero = false)
    (positive : x.negative = false) : x.text = x.sizeText := by
  simp [text, isNumber, nonzero, positive]

theorem sizeText_neg (x : Binary64) : x.neg.sizeText = x.sizeText := rfl

theorem isZero_neg (x : Binary64) : x.neg.isZero = x.isZero := rfl

theorem isZero_of_text_eq (none : x.text = "0") : x.isZero = true := by
  have zero : x.text = (zero false).text := none
  rcases (text_eq_iff_alike _ _).mp zero with rfl | ⟨-, isNaN⟩ | ⟨isZero, -⟩
  · rfl
  · cases isNaN
  · exact isZero

theorem sizeText_ne_signed (isNumber : x.isNaN = false) (rest : List Char) :
    x.sizeText.toList ≠ '-' :: rest := by
  rcases kind_cases x with none | infinite | finite
  · rw [isNumber] at none
    cases none
  · simp [sizeText, infinite]
  · rw [sizeText_toList finite]
    exact (plain_numeral finite).head_ne_minus

theorem text_neg (x : Binary64) : x.neg.text = toggled x.text := by
  cases isNumber : x.isNaN with
  | true =>
    rw [text_of_isNaN isNumber, text_of_isNaN (x.isNaN_neg.trans isNumber)]
    decide
  | false =>
    -- A zero has no sign in its text, and any other number has one exactly if it is negative.
    have isNumberNeg := x.isNaN_neg.trans isNumber
    cases nonzero : x.isZero with
    | true =>
      rw [text_of_isZero nonzero, text_of_isZero (x.isZero_neg.trans nonzero)]
      decide
    | false =>
      have nonzeroNeg := x.isZero_neg.trans nonzero
      have sign := x.negative_neg
      cases signed : x.negative with
      | true =>
        rw [signed] at sign
        rw [text_of_positive isNumberNeg nonzeroNeg sign, sizeText_neg,
          text_of_negative isNumber nonzero signed, toggled_minus]
      | false =>
        rw [signed] at sign
        have text := text_of_positive isNumber nonzero signed
        have shown : ¬ (x.text = "0" ∨ x.text = "nan") := by
          rintro (zero | none)
          · rw [isZero_of_text_eq zero] at nonzero
            cases nonzero
          · rw [isNaN_of_text_eq none] at isNumber
            cases isNumber
        rw [text] at shown ⊢
        rw [text_of_negative isNumberNeg nonzeroNeg sign, sizeText_neg,
          toggled_unsigned shown (sizeText_ne_signed isNumber)]

end Binary64

namespace Grammar

/-- Every level is opened by a token of its own. -/
theorem Derives.nesting_lt_length {category : Category} {row : List Token} {nesting : Nat}
    {e : Expr} (derives : Derives category row nesting e) : nesting < row.length := by
  induction derives with
  | number => exact Nat.zero_lt_one
  | group inner ih =>
    rw [List.length_append, List.length_cons]
    exact Nat.lt_of_lt_of_le (Nat.succ_lt_succ ih) (Nat.le_add_right _ _)
  | primary inner ih => exact ih
  | negation operand ih => exact Nat.succ_lt_succ ih
  | operand precedence single ih => exact ih
  | operation operator first second ihFirst ihSecond =>
    rw [List.length_append, List.length_cons]
    omega

theorem opensAtMost_of_length_le {lexemes : List Lexeme} {e : Expr} {limit : Nat}
    (parsed : Expr.ofLexemes lexemes = .ok e) (short : lexemes.length ≤ limit) :
    OpensAtMost limit lexemes := by
  obtain ⟨nesting, derives, levels⟩ := exists_derives_opensAtMost parsed
  have fewer := derives.nesting_lt_length
  rw [tokens, List.length_map] at fewer
  exact (levels limit).mpr (by omega)

/-- A minus and a parenthesis open a level each, and the minus makes a node. -/
theorem Derives.negated {row : List Token} {nesting : Nat} {e : Expr}
    (derives : Derives (.row .additive) row nesting e) :
    Derives (.row .additive) (.minus :: .leftParen :: row ++ [.rightParen]) (nesting + 2)
      (.negate e) :=
  .operand .additive (.operand .multiplicative (.negation (.primary (.group derives))))

end Grammar

/-- A source in parentheses behind a minus has the same tokens between the new ones. -/
theorem exists_scan_negated {source : String} {found : List Lexeme}
    (scanned : Token.scan source = .ok found) :
    ∃ wrapped, Token.scan ("-(" ++ source ++ ")") = .ok wrapped ∧
      tokens wrapped = .minus :: .leftParen :: tokens found ++ [.rightParen] := by
  have opening : Token.scan "-(" = .ok [⟨.minus, 0, 1⟩, ⟨.leftParen, 1, 2⟩] := by decide +kernel
  have closing : Token.scan ")" = .ok [⟨.rightParen, 0, 1⟩] := by decide +kernel
  have begun := Token.scan_append_of_apart (b := source) opening (by
    rintro ⟨⟨lexeme, member, ⟨value, number⟩, -⟩, -⟩
    simp only [List.mem_cons, List.not_mem_nil, or_false] at member
    rcases member with rfl | rfl <;> cases number)
  rw [scanned] at begun
  have whole := Token.scan_append_of_apart (b := ")") begun fun ⟨_, digit⟩ =>
    absurd digit (by decide)
  rw [closing] at whole
  refine ⟨_, whole, ?_⟩
  simp [tokens, Lexeme.shift]

/-- A source that is negated as a whole gives the text with the other sign, if its tree is not among
the highest and it leaves room for two more levels. Otherwise it is too deep. -/
theorem compute_negated (source result : String) (computed : compute source = .ok result) :
    ∃ found e, Token.scan source = .ok found ∧ Expr.ofLexemes found = .ok e ∧
      (OpensAtMost 510 found ∧ e.height ≤ 511 →
        compute ("-(" ++ source ++ ")") = .ok (toggled result)) ∧
      (¬ (OpensAtMost 510 found ∧ e.height ≤ 511) → ∃ position,
        compute ("-(" ++ source ++ ")") = .error (.parse (.tooDeep 512 position))) := by
  obtain ⟨e, formed, rfl⟩ := exists_tree_of_compute computed
  obtain ⟨found, scanned, parsed⟩ := (tree_eq_ok_iff source e).mp formed
  obtain ⟨nesting, derives, levels⟩ := exists_derives_opensAtMost parsed
  obtain ⟨wrapped, scannedWrapped, same⟩ := exists_scan_negated scanned
  have negated : Derives (.row .additive) (tokens wrapped) (nesting + 2) (.negate e) :=
    same ▸ derives.negated
  -- Both limits are those of the longer source, less what the minus and the parenthesis take.
  have within : OpensAtMost 510 found ∧ e.height ≤ 511 ↔ Within 0 (nesting + 2) (.negate e) := by
    rw [levels, Within, Expr.height, depthLimit]
    omega
  refine ⟨found, e, scanned, parsed, fun low => ?_, fun high => ?_⟩
  · have formed := (tree_eq_ok_iff _ _).mpr
      ⟨wrapped, scannedWrapped, ofLexemes_of_derives negated (within.mp low)⟩
    rw [compute_of_tree formed, Expr.value, Binary64.text_neg]
  · obtain ⟨position, refused⟩ := ofLexemes_of_beyond negated fun low => high (within.mpr low)
    exact ⟨position, (compute_eq_error_iff _ _).mpr
      ((tree_eq_error_iff _ _).mpr (.inr ⟨wrapped, _, scannedWrapped, refused, rfl⟩))⟩

/-- An infinity loses the minus that its text has. -/
theorem compute_negated_infinity :
    compute "-2/0" = .ok "-inf" ∧ compute "-(-2/0)" = .ok "inf" := by
  let two : Binary64 := ⟨false, 0x4000000000000000, by decide⟩
  have computed : compute "-2/0" = .ok "-inf" := by decide +kernel
  have scanned : Token.scan "-2/0" = .ok [⟨.minus, 0, 1⟩, ⟨.literal two, 1, 2⟩, ⟨.slash, 2, 3⟩,
    ⟨.literal (.zero false), 3, 4⟩] := by decide +kernel
  have parsed : Expr.ofLexemes [⟨.minus, 0, 1⟩, ⟨.literal two, 1, 2⟩, ⟨.slash, 2, 3⟩,
      ⟨.literal (.zero false), 3, 4⟩] =
    .ok (.binary .divide (.negate (.number two)) (.number (.zero false))) := by decide +kernel
  obtain ⟨found, e, scanned', parsed', gives, -⟩ := compute_negated "-2/0" "-inf" computed
  obtain rfl := Except.ok.inj (scanned.symm.trans scanned')
  obtain rfl := Except.ok.inj (parsed.symm.trans parsed')
  exact ⟨computed, gives ⟨opensAtMost_of_length_le parsed (by decide), by decide⟩⟩

end Calculator
