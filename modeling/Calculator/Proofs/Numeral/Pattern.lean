import Calculator.Numeral
import Mathlib.Computability.RegularExpressions
import Mathlib.Data.List.TakeWhile

/-!
The patterns of numerals, and the longest match at the front of a text.

A numeral is written as `[0-9]+(\.[0-9]+)?` or as `\.[0-9]+`, and the numeral at the front of a text
is the longest match of either pattern there. The first character tells which pattern it is, so a
match that cannot be prolonged in its own pattern is the longest of all.

Main statement: the numeral at the front of a text is exactly the match of a pattern that no more of
the text would prolong (`front?_append_iff`).
-/
namespace Calculator.Numeral

open RegularExpression

def digitChars : List Char := ['0', '1', '2', '3', '4', '5', '6', '7', '8', '9']

/-- The pattern `[0-9]`. -/
def digit : RegularExpression Char := (digitChars.map char).foldr (· + ·) 0

/-- The pattern `[0-9]+`. -/
def digits : RegularExpression Char := digit * digit.star

/-- The pattern `[0-9]+(\.[0-9]+)?`. -/
def wholePattern : RegularExpression Char := digits * (1 + char '.' * digits)

/-- The pattern `\.[0-9]+`. -/
def pointPattern : RegularExpression Char := char '.' * digits

def patterns : List (RegularExpression Char) := [wholePattern, pointPattern]

theorem isDigit_iff_mem (c : Char) : c.isDigit = true ↔ c ∈ digitChars := by
  constructor
  · intro isDigit
    obtain ⟨lower, upper⟩ := Char.isDigit_iff_toNat.mp isDigit
    have listed : (List.range' 48 10).all (fun code => digitChars.contains (Char.ofNat code)) =
        true := by decide
    have inRange : c.toNat ∈ List.range' 48 10 :=
      List.mem_range'_1.mpr ⟨lower, Nat.lt_succ_of_le upper⟩
    rw [← Char.ofNat_toNat c, ← List.contains_iff_mem]
    exact List.all_eq_true.mp listed c.toNat inRange
  · have all : digitChars.all Char.isDigit = true := by decide
    exact List.all_eq_true.mp all c

theorem mem_digit_iff (text : List Char) :
    text ∈ digit.matches' ↔ ∃ c, c.isDigit = true ∧ text = [c] := by
  have union (chars : List Char) : text ∈ ((chars.map char).foldr (· + ·) 0).matches' ↔
      ∃ c ∈ chars, text = [c] := by
    induction chars with
    | nil => simp [Language.notMem_zero]
    | cons c chars ih =>
      have single : text ∈ (char c).matches' ↔ text = [c] := Iff.rfl
      rw [List.map_cons, List.foldr_cons, matches'_add, Language.mem_add, ih, single]
      simp
  simp only [isDigit_iff_mem]
  exact union digitChars

def IsDigits (text : List Char) : Prop := text ≠ [] ∧ ∀ c ∈ text, c.isDigit = true

theorem mem_digits_iff (text : List Char) : text ∈ digits.matches' ↔ IsDigits text := by
  simp only [digits, matches'_mul, matches'_star, Language.mem_mul, Language.mem_kstar,
    mem_digit_iff]
  constructor
  · rintro ⟨_, ⟨first, isDigit, rfl⟩, _, ⟨parts, rfl, each⟩, rfl⟩
    refine ⟨by simp, fun c member => ?_⟩
    rcases List.mem_append.mp member with front | behind
    · exact List.mem_singleton.mp front ▸ isDigit
    · obtain ⟨part, among, inside⟩ := List.mem_flatten.mp behind
      obtain ⟨other, isDigit, rfl⟩ := each part among
      exact List.mem_singleton.mp inside ▸ isDigit
  · rintro ⟨present, all⟩
    obtain ⟨first, rest, rfl⟩ := List.exists_cons_of_ne_nil present
    refine ⟨[first], ⟨first, all first (by simp), rfl⟩, rest, ⟨rest.map ([·]), ?_, ?_⟩, rfl⟩
    · simp [← List.flatMap_def]
    · intro part among
      obtain ⟨c, member, rfl⟩ := List.mem_map.mp among
      exact ⟨c, all c (List.mem_cons_of_mem _ member), rfl⟩

/-- Digits alone on both sides of the point, and at least one of them. -/
structure Proper (numeral : Numeral) : Prop where
  isDigit : ∀ c ∈ numeral.whole ++ numeral.fraction, c.isDigit = true
  present : numeral.text ≠ []

theorem mem_of_mem_text {numeral : Numeral} (proper : numeral.Proper) {c : Char}
    (member : c ∈ numeral.text) : c ∈ '.' :: digitChars := by
  rw [Numeral.text, List.mem_append] at member
  by_cases point : c = '.'
  · simp [point]
  · refine List.mem_cons_of_mem _ ((isDigit_iff_mem c).mp (proper.isDigit c ?_))
    rcases member with before | behind
    · exact List.mem_append_left _ before
    · split at behind
      · cases behind
      · exact List.mem_append_right _ ((List.mem_cons.mp behind).resolve_left point)

theorem mem_wholePattern_iff (text : List Char) : text ∈ wholePattern.matches' ↔
    ∃ numeral : Numeral, numeral.Proper ∧ numeral.whole ≠ [] ∧ numeral.text = text := by
  simp only [wholePattern, matches'_mul, matches'_add, matches'_epsilon, matches'_char,
    Language.mem_mul, Language.mem_add, mem_digits_iff]
  constructor
  · rintro ⟨whole, ⟨present, all⟩, _, rfl | ⟨_, rfl, fraction, ⟨more, others⟩, rfl⟩, rfl⟩
    · exact ⟨⟨whole, []⟩, ⟨by simpa using all, by simp [Numeral.text, present]⟩, present, rfl⟩
    · have filled : fraction.isEmpty = false := by simp [more]
      refine ⟨⟨whole, fraction⟩, ⟨?_, by simp [Numeral.text, present]⟩, present, by
        simp [Numeral.text, filled]⟩
      intro c member
      rcases List.mem_append.mp member with before | after
      · exact all c before
      · exact others c after
  · rintro ⟨⟨whole, fraction⟩, ⟨all, _⟩, present, rfl⟩
    refine ⟨whole, ⟨present, fun c member => all c (by simp [member])⟩, _, ?_, rfl⟩
    cases fraction with
    | nil => exact Or.inl rfl
    | cons first fraction =>
      exact Or.inr ⟨['.'], rfl, first :: fraction,
        ⟨List.cons_ne_nil _ _, fun c member => all c (List.mem_append_right _ member)⟩, rfl⟩

theorem mem_pointPattern_iff (text : List Char) : text ∈ pointPattern.matches' ↔
    ∃ numeral : Numeral, numeral.Proper ∧ numeral.whole = [] ∧ numeral.text = text := by
  simp only [pointPattern, matches'_mul, matches'_char, Language.mem_mul, mem_digits_iff]
  constructor
  · rintro ⟨_, rfl, fraction, ⟨present, all⟩, rfl⟩
    have filled : fraction.isEmpty = false := by simp [present]
    exact ⟨⟨[], fraction⟩, ⟨by simpa using all, by simp [Numeral.text, filled]⟩, rfl,
      by simp [Numeral.text, filled]⟩
  · rintro ⟨⟨_, fraction⟩, ⟨all, present⟩, rfl, rfl⟩
    cases fraction with
    | nil => exact absurd rfl present
    | cons first fraction =>
      exact ⟨['.'], rfl, first :: fraction,
        ⟨List.cons_ne_nil _ _, fun c member => all c (by simpa using member)⟩, rfl⟩

/-- The numeral that a text is, cut at its point. -/
def ofText (text : List Char) : Numeral :=
  ⟨text.takeWhile (· != '.'), (text.dropWhile (· != '.')).tail⟩

theorem ofText_text {numeral : Numeral} (proper : numeral.Proper) :
    ofText numeral.text = numeral := by
  obtain ⟨whole, fraction⟩ := numeral
  have noPoint : ∀ c ∈ whole, (c != '.') = true := by
    intro c member
    have isDigit := proper.isDigit c (List.mem_append_left _ member)
    rw [bne_iff_ne]
    rintro rfl
    cases isDigit
  cases fraction with
  | nil => simp [ofText, Numeral.text, List.takeWhile_eq_self_iff.mpr noPoint,
      List.dropWhile_eq_nil_iff.mpr noPoint]
  | cons first fraction => simp [ofText, Numeral.text, List.takeWhile_append_of_pos noPoint,
      List.dropWhile_append_of_pos noPoint]

theorem eq_of_text_eq {numeral other : Numeral} (proper : numeral.Proper)
    (properOther : other.Proper) (same : numeral.text = other.text) : numeral = other := by
  rw [← ofText_text proper, same, ofText_text properOther]

theorem proper_of_front? {text : List Char} {numeral : Numeral}
    (found : front? text = some numeral) : numeral.Proper :=
  ⟨fun _ member => isDigit_of_mem found member, text_ne_nil found⟩

/-- Every numeral that a text begins with is the beginning of the one at its front. -/
theorem exists_front_of_begins {text : List Char} {numeral : Numeral} (proper : numeral.Proper)
    (begins : numeral.text <+: text) :
    ∃ longest, front? text = some longest ∧ numeral.text <+: longest.text := by
  obtain ⟨whole, fraction⟩ := numeral
  obtain ⟨after, rfl⟩ := begins
  have wholeDigits : ∀ c ∈ whole, c.isDigit = true := fun c member =>
    proper.isDigit c (List.mem_append_left _ member)
  -- Without a point of its own the numeral may go on with one; with a point only its digits can.
  cases fraction with
  | nil =>
    have taken : (whole ++ after).takeWhile Char.isDigit = whole ++ after.takeWhile Char.isDigit :=
      List.takeWhile_append_of_pos wholeDigits
    have present : whole ≠ [] := by simpa [Numeral.text] using proper.present
    refine ⟨⟨_, _⟩, front?_eq_some_iff.mpr ⟨rfl, rfl, ?_⟩, ?_⟩ <;>
      simp [Numeral.text, taken, present]
  | cons first fraction =>
    have fractionDigits : ∀ c ∈ first :: fraction, c.isDigit = true := fun c member =>
      proper.isDigit c (List.mem_append_right _ member)
    have front : front? (text ⟨whole, first :: fraction⟩ ++ after) =
        some ⟨whole, first :: fraction ++ after.takeWhile Char.isDigit⟩ := by
      rw [front?_eq_some_iff]
      refine ⟨?_, ?_, by simp [Numeral.text]⟩
      · simp [Numeral.text, List.takeWhile_append_of_pos wholeDigits]
      · have rest : (text ⟨whole, first :: fraction⟩ ++ after).dropWhile Char.isDigit =
            '.' :: (first :: fraction ++ after) := by
          simp [Numeral.text, List.dropWhile_append_of_pos wholeDigits]
        rw [rest, frontFraction, List.takeWhile_append_of_pos fractionDigits]
    exact ⟨_, front, by simp [Numeral.text]⟩

theorem whole_eq_nil_iff {numeral : Numeral} (proper : numeral.Proper) :
    numeral.whole = [] ↔ numeral.text.head? = some '.' := by
  obtain ⟨whole, fraction⟩ := numeral
  cases whole with
  | nil =>
    cases fraction with
    | nil => exact absurd rfl proper.present
    | cons first fraction => simp [Numeral.text]
  | cons first whole =>
    have isDigit := proper.isDigit first (by simp)
    simp only [Numeral.text, List.cons_append, List.head?_cons, Option.some.injEq, reduceCtorEq,
      false_iff]
    rintro rfl
    cases isDigit

theorem exists_pattern {numeral : Numeral} (proper : numeral.Proper) :
    ∃ pattern ∈ patterns, numeral.text ∈ pattern.matches' := by
  by_cases begins : numeral.whole = []
  · exact ⟨pointPattern, by simp [patterns], (mem_pointPattern_iff _).mpr
      ⟨numeral, proper, begins, rfl⟩⟩
  · exact ⟨wholePattern, by simp [patterns], (mem_wholePattern_iff _).mpr
      ⟨numeral, proper, begins, rfl⟩⟩

theorem proper_of_matches {pattern : RegularExpression Char} (listed : pattern ∈ patterns)
    {text : List Char} (fits : text ∈ pattern.matches') :
    (ofText text).Proper ∧ (ofText text).text = text := by
  simp only [patterns, List.mem_cons, List.not_mem_nil, or_false] at listed
  rcases listed with rfl | rfl
  · obtain ⟨numeral, proper, _, rfl⟩ := (mem_wholePattern_iff _).mp fits
    rw [ofText_text proper]
    exact ⟨proper, rfl⟩
  · obtain ⟨numeral, proper, _, rfl⟩ := (mem_pointPattern_iff _).mp fits
    rw [ofText_text proper]
    exact ⟨proper, rfl⟩

theorem matches_of_begins {pattern : RegularExpression Char} (listed : pattern ∈ patterns)
    {numeral longer : Numeral} (proper : numeral.Proper) (properLonger : longer.Proper)
    (begins : numeral.text <+: longer.text) (fits : numeral.text ∈ pattern.matches') :
    longer.text ∈ pattern.matches' := by
  -- Which pattern a numeral matches is told by its first character, and the two have the same.
  have same : numeral.text.head? = longer.text.head? := by
    obtain ⟨more, extended⟩ := begins
    rw [← extended, List.head?_append_of_ne_nil _ proper.present]
  simp only [patterns, List.mem_cons, List.not_mem_nil, or_false] at listed
  rcases listed with rfl | rfl
  · obtain ⟨other, properOther, present, sameText⟩ := (mem_wholePattern_iff _).mp fits
    obtain rfl := eq_of_text_eq properOther proper sameText
    rw [Ne, whole_eq_nil_iff proper, same, ← whole_eq_nil_iff properLonger] at present
    exact (mem_wholePattern_iff _).mpr ⟨longer, properLonger, present, rfl⟩
  · obtain ⟨other, properOther, absent, sameText⟩ := (mem_pointPattern_iff _).mp fits
    obtain rfl := eq_of_text_eq properOther proper sameText
    rw [whole_eq_nil_iff proper, same, ← whole_eq_nil_iff properLonger] at absent
    exact (mem_pointPattern_iff _).mpr ⟨longer, properLonger, absent, rfl⟩

/-- A text matches a pattern, and with more of what stands behind it would not match any more. -/
def Longest (pattern : RegularExpression Char) (text after : List Char) : Prop :=
  text ∈ pattern.matches' ∧
    ∀ more, more <+: after → more ≠ [] → text ++ more ∉ pattern.matches'

/-- The numeral at the front of a text is the match of a pattern that cannot be prolonged. -/
theorem front?_append_iff (text after : List Char) (numeral : Numeral) :
    front? (text ++ after) = some numeral ∧ numeral.text = text ↔
      (∃ pattern ∈ patterns, Longest pattern text after) ∧ numeral = ofText text := by
  constructor
  · rintro ⟨found, rfl⟩
    have proper := proper_of_front? found
    obtain ⟨pattern, listed, fits⟩ := exists_pattern proper
    refine ⟨⟨pattern, listed, fits, ?_⟩, (ofText_text proper).symm⟩
    intro more begins present fitsMore
    obtain ⟨properMore, sameText⟩ := proper_of_matches listed fitsMore
    have beginsMore : (ofText (numeral.text ++ more)).text <+: numeral.text ++ after := by
      rw [sameText]
      exact (List.prefix_append_right_inj _).mpr begins
    -- A longer match is a numeral that the text begins with, so the one at the front is no shorter.
    obtain ⟨longest, front, bound⟩ := exists_front_of_begins properMore beginsMore
    obtain rfl := Option.some.inj (found.symm.trans front)
    rw [sameText] at bound
    have short := bound.length_le
    rw [List.length_append] at short
    have long := List.length_pos_iff.mpr present
    omega
  · rintro ⟨⟨pattern, listed, fits, longest⟩, rfl⟩
    obtain ⟨proper, sameText⟩ := proper_of_matches listed fits
    have begins : (ofText text).text <+: text ++ after := by
      rw [sameText]
      exact List.prefix_append _ _
    obtain ⟨found, front, more, extended⟩ := exists_front_of_begins proper begins
    have properFound := proper_of_front? front
    have fitsFound := matches_of_begins listed proper properFound ⟨more, extended⟩
      (sameText.symm ▸ fits)
    have beginsFound := text_begins front
    rw [← extended, sameText] at fitsFound beginsFound
    -- The numeral at the front matches the same pattern, and this match cannot be prolonged.
    have nothing : more = [] := by
      by_contra present
      exact longest more ((List.prefix_append_right_inj _).mp beginsFound) present fitsFound
    rw [nothing, List.append_nil] at extended
    exact ⟨eq_of_text_eq proper properFound extended ▸ front, sameText⟩

end Calculator.Numeral
