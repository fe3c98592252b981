import Calculator.Compute
import Calculator.Proofs.Decimal.Written
import Calculator.Proofs.Grammar.Derivation
import Calculator.Proofs.Token.Scanning

/-!
The text of a number as a source: it is plain, and it is worked out to the number again.

The text is scanned as one literal, with a minus token in front of the negative numbers. The tree is
a leaf, or a negation above one, and its value has every bit of the number, but that a zero loses
its sign.

Main statement: a finite number's text is plain and computes to itself (`compute_text`).
-/
namespace Calculator

open RegularExpression in
/-- The pattern `-?[0-9]+(\.[0-9]+)?`. -/
def Numeral.signedPattern : RegularExpression Char := (1 + char '-') * wholePattern

/-- A text of a number without an exponent, and without a zero that could be left out. -/
structure PlainText (text : List Char) : Prop where
  shape : text ∈ Numeral.signedPattern.matches'
  leading : ∀ next rest, text = '0' :: next :: rest ∨ text = '-' :: '0' :: next :: rest →
    next = '.'
  trailing : '.' ∈ text → text.getLast? ≠ some '0'

namespace Numeral

theorem Plain.next_of_zero {numeral : Numeral} (plain : numeral.Plain) {next : Char}
    {rest : List Char} (text : numeral.text = '0' :: next :: rest) : next = '.' := by
  obtain ⟨first, others, whole⟩ := List.exists_cons_of_ne_nil plain.digitBefore
  have zero : first = '0' := by
    rw [Numeral.text, whole] at text
    exact (List.cons.inj text).1
  have alone := plain.leading (by rw [whole, zero]; rfl)
  rw [Numeral.text, alone] at text
  split at text
  · cases text
  · cases text
    rfl

theorem Plain.head_ne_minus {numeral : Numeral} (plain : numeral.Plain) {rest : List Char} :
    numeral.text ≠ '-' :: rest := by
  intro text
  have listed : '-' ∈ '.' :: digitChars := mem_of_mem_text plain.toProper (by simp [text])
  revert listed
  decide

theorem Plain.getLast?_text {numeral : Numeral} (plain : numeral.Plain)
    (point : '.' ∈ numeral.text) : numeral.text.getLast? ≠ some '0' := by
  rw [Numeral.text] at point ⊢
  split
  next empty =>
    rw [if_pos empty, List.append_nil] at point
    exact absurd (plain.isDigit '.' (List.mem_append_left _ point)) (by decide)
  next filled =>
    have present : numeral.fraction ≠ [] := by simpa using filled
    rw [List.getLast?_append_of_ne_nil _ (List.cons_ne_nil _ _),
      List.getLast?_cons_of_ne_nil present]
    exact plain.trailing

theorem Plain.plainText {numeral : Numeral} (plain : numeral.Plain) {sign : List Char}
    (signed : sign = [] ∨ sign = ['-']) : PlainText (sign ++ numeral.text) where
  shape := by
    refine Language.mem_mul.mpr ⟨sign, ?_, numeral.text, ?_, rfl⟩
    · rcases signed with rfl | rfl
      · exact Or.inl rfl
      · exact Or.inr rfl
    · exact (mem_wholePattern_iff _).mpr ⟨numeral, plain.toProper, plain.digitBefore, rfl⟩
  leading next rest text := by
    rcases signed with rfl | rfl
    · rcases text with text | text
      · exact plain.next_of_zero text
      · exact absurd text plain.head_ne_minus
    · rcases text with text | text
      · cases text
      · exact plain.next_of_zero (List.cons.inj text).2
  trailing point := by
    have inNumeral : '.' ∈ numeral.text := by
      rcases signed with rfl | rfl
      · exact point
      · simpa using point
    rw [List.getLast?_append_of_ne_nil _ plain.present]
    exact plain.getLast?_text inNumeral

end Numeral

namespace Token

/-- A numeral stands in front of anything that does not go on with a digit or the point. -/
theorem stands_numeral {numeral : Numeral} (proper : numeral.Proper)
    (finite : numeral.number.isFinite = true) {after : List Char}
    (apart : ∀ c ∈ after.head?, c ∉ '.' :: Numeral.digitChars) :
    Stands (.literal numeral.number) numeral.text after := by
  obtain ⟨pattern, listed, fits⟩ := Numeral.exists_pattern proper
  have number : Numeral.IsNumberOf numeral.text numeral.number :=
    Numeral.isNumberOf_iff.mpr ⟨by rw [Numeral.ofText_text proper], finite⟩
  refine ⟨⟨pattern, listed, fits, ?_⟩, number⟩
  intro more begins present longer
  -- A longer match would have what stands behind in it, and matches have digits and points alone.
  obtain ⟨c, others, rfl⟩ := List.exists_cons_of_ne_nil present
  obtain ⟨rest, rfl⟩ := begins
  obtain ⟨properLonger, same⟩ := Numeral.proper_of_matches listed longer
  have inside : c ∈ (Numeral.ofText (numeral.text ++ c :: others)).text := by simp [same]
  exact apart c rfl (Numeral.mem_of_mem_text properLonger inside)

theorem scans_numeral {numeral : Numeral} (proper : numeral.Proper)
    (finite : numeral.number.isFinite = true) (offset : Nat) :
    Scans numeral.text offset
      [⟨.literal numeral.number, offset, offset + numeral.text.length⟩] := by
  have stands : Stands (.literal numeral.number) numeral.text [] :=
    stands_numeral proper finite nofun
  have scans := Scans.token stands (.done (offset + numeral.text.length))
  rwa [List.append_nil] at scans

theorem scans_minus {text : List Char} {found : List Lexeme} (others : Scans text 1 found) :
    Scans ('-' :: text) 0 (⟨.minus, 0, 1⟩ :: found) :=
  have stands : Stands .minus ['-'] text := rfl
  .token stands others

end Token

open Grammar in
theorem tree_of_derives {source : String} {found : List Lexeme} {nesting : Nat} {e : Expr}
    (scans : Token.Scans source.toList 0 found)
    (derives : Derives (.row .additive) (tokens found) nesting e) (within : Within 0 nesting e) :
    tree source = .ok e := by
  have scanned := (Token.scan_eq_ok_iff_scans source found).mpr scans
  exact (tree_eq_ok_iff source e).mpr ⟨found, scanned, ofLexemes_of_derives derives within⟩

namespace Binary64

/-- A number without its sign. -/
def size (x : Binary64) : Binary64 := { x with negative := false }

open Grammar in
theorem tree_text {x : Binary64} (finite : x.isFinite = true) :
    tree x.text =
      .ok (if x.negative && !x.isZero then .negate (.number x.size) else .number x.size) := by
  have number : x.numeral.number = x.size := number_numeral finite
  have proper := (plain_numeral finite).toProper
  have finiteNumber : x.numeral.number.isFinite = true := number ▸ finite
  have unsigned : Derives .unary [.literal x.size] 0 (.number x.size) := .primary (.number _)
  have text := text_toList finite
  -- The text has a minus in front exactly where the tree has its negation.
  split
  next signed =>
    have scans := Token.scans_minus (Token.scans_numeral proper finiteNumber 1)
    rw [if_pos signed, List.singleton_append] at text
    rw [number, ← text] at scans
    have derives := Derives.operand .additive (.operand .multiplicative (.negation unsigned))
    exact tree_of_derives scans derives ⟨by decide, show 2 ≤ depthLimit by decide⟩
  next plain =>
    have scans := Token.scans_numeral proper finiteNumber 0
    rw [if_neg plain, List.nil_append] at text
    rw [number, ← text] at scans
    have derives := Derives.operand .additive (.operand .multiplicative unsigned)
    exact tree_of_derives scans derives ⟨by decide, show 1 ≤ depthLimit by decide⟩

theorem value_of_text (x : Binary64) :
    (if x.negative && !x.isZero then Expr.negate (.number x.size) else .number x.size).value =
      if x = zero true then zero false else x := by
  obtain ⟨negative, magnitude, bound⟩ := x
  -- The negation puts the sign back that the text has as a token, and only a zero has none there.
  cases negative with
  | false => simp [zero, size, Expr.value]
  | true =>
    by_cases nothing : magnitude = 0
    · simp [nothing, isZero, zero, size, Expr.value]
    · simp [nothing, isZero, zero, size, Expr.value, neg]

theorem evaluate_text {x : Binary64} (finite : x.isFinite = true) :
    evaluate x.text = .ok (if x = zero true then zero false else x) := by
  rw [evaluate_of_tree (tree_text finite), value_of_text]

theorem text_zero (negative : Bool) : (zero negative).text = "0" := by
  have isNumber : (zero negative).isNaN = false := by cases negative <;> decide
  rw [text, isNumber, if_neg Bool.false_ne_true]
  rfl

theorem compute_own_text {x : Binary64} (finite : x.isFinite = true) :
    compute x.text = .ok x.text := by
  rw [text_of_evaluated (evaluate_text finite)]
  split
  next isZero => rw [isZero, text_zero, text_zero]
  · rfl

theorem numEq_of_finite {x : Binary64} (finite : x.isFinite = true) :
    (if x = zero true then zero false else x).numEq x = true := by
  split
  next isZero =>
    rw [isZero]
    decide
  · rw [isFinite_eq, Bool.and_eq_true] at finite
    simp [numEq, finite.2]

theorem plainText_text {x : Binary64} (finite : x.isFinite = true) : PlainText x.text.toList := by
  rw [text_toList finite]
  apply (plain_numeral finite).plainText
  split
  · exact Or.inr rfl
  · exact Or.inl rfl

/-- A finite number's text is plain, and as a source it has a tree that is worth the number, with
every bit but the sign of a zero. So it computes to itself, as every finite result does. -/
theorem compute_text (x : Binary64) (finite : x.isFinite = true) :
    PlainText x.text.toList ∧
      (∃ e, tree x.text = .ok e ∧ e.value.numEq x = true ∧
        e.value = if x = zero true then zero false else x) ∧
      compute x.text = .ok x.text ∧
      ∀ source, evaluate source = .ok x →
        ∃ text, compute source = .ok text ∧ compute text = .ok text := by
  refine ⟨plainText_text finite, ⟨_, tree_text finite, ?_, value_of_text x⟩,
    compute_own_text finite, ?_⟩
  · rw [value_of_text]
    exact numEq_of_finite finite
  · intro source evaluated
    exact ⟨x.text, text_of_evaluated evaluated, compute_own_text finite⟩

/-- The negative of the sum of one tenth and two tenths has 17 digits, and all of them count. -/
theorem compute_text_seventeen_digits :
    let x : Binary64 := ⟨true, 0x3FD3333333333334, by decide⟩
    x.isFinite = true ∧ PlainText "-0.30000000000000004".toList ∧
      (∃ e, tree "-0.30000000000000004" = .ok e ∧ e.value = x) ∧
      compute "-0.30000000000000004" = .ok "-0.30000000000000004" := by
  intro x
  have finite : x.isFinite = true := by decide
  have text : x.text = "-0.30000000000000004" := by decide +kernel
  obtain ⟨plain, ⟨e, formed, _, value⟩, computed, _⟩ := compute_text x finite
  rw [text] at plain formed computed
  exact ⟨finite, plain, ⟨e, formed, value⟩, computed⟩

end Binary64
end Calculator
