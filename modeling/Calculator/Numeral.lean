import Calculator.Binary64.Rounding
import Calculator.Decimal.Digits

/-!
Numerals: the texts that stand for numbers, read and valued.

A numeral is a run of digits with an optional point and more digits behind it, or a point and
digits alone. The longest numeral at the front of a text takes a point only when a digit follows.
The value of a numeral is an exact fraction, and its number the binary64 number nearest to that,
which is the infinity for values that are too large.

Main statements: a numeral at the front of a text is what the text begins with (`text_begins`), is
never empty (`text_ne_nil`), and has digits alone on both sides of its point (`isDigit_of_mem`).
-/
namespace Calculator

-- Powers of natural numbers are those of the core library, whatever else a module imports.
attribute [local instance (high)] instPowNat

/-- The digits before the point and those after it, of which there are none without a point. -/
structure Numeral where
  whole : List Char
  fraction : List Char
  deriving DecidableEq

namespace Numeral

def text (numeral : Numeral) : List Char :=
  numeral.whole ++ if numeral.fraction.isEmpty then [] else '.' :: numeral.fraction

/-- The exact value: all digits as one natural number, scaled by the digits after the point. -/
def value (numeral : Numeral) : Rat :=
  mkRat (Decimal.digitsValue (numeral.whole ++ numeral.fraction)) (10 ^ numeral.fraction.length)

def number (numeral : Numeral) : Binary64 := Binary64.nearest false numeral.value

/-- The digits behind a point at the front of a text. -/
def frontFraction : List Char → List Char
  | '.' :: digits => digits.takeWhile Char.isDigit
  | _ => []

/-- The longest numeral at the front of a text. -/
def front? (text : List Char) : Option Numeral :=
  let whole := text.takeWhile Char.isDigit
  let fraction := frontFraction (text.dropWhile Char.isDigit)
  if whole.isEmpty && fraction.isEmpty then none else some ⟨whole, fraction⟩

theorem front?_eq_some_iff {text : List Char} {numeral : Numeral} :
    front? text = some numeral ↔
      numeral.whole = text.takeWhile Char.isDigit ∧
      numeral.fraction = frontFraction (text.dropWhile Char.isDigit) ∧ numeral.text ≠ [] := by
  obtain ⟨whole, fraction⟩ := numeral
  simp only [front?, Numeral.text]
  constructor
  · intro found
    split at found
    · cases found
    next present =>
      cases found
      refine ⟨rfl, rfl, ?_⟩
      simp only [Bool.and_eq_true, List.isEmpty_iff, not_and] at present
      intro empty
      rw [List.append_eq_nil_iff] at empty
      simp [present empty.1] at empty
  · rintro ⟨rfl, rfl, present⟩
    rw [if_neg]
    intro empty
    simp only [Bool.and_eq_true, List.isEmpty_iff] at empty
    simp [empty.1, empty.2] at present

private theorem frontFraction_begins (text : List Char) :
    (if (frontFraction text).isEmpty then [] else '.' :: frontFraction text) <+: text := by
  split
  · exact List.nil_prefix
  next present =>
    unfold frontFraction at present ⊢
    split at present
    · exact List.cons_prefix_cons.mpr ⟨rfl, List.takeWhile_prefix _⟩
    · simp at present

theorem text_begins {text : List Char} {numeral : Numeral} (found : front? text = some numeral) :
    numeral.text <+: text := by
  obtain ⟨whole, fraction, _⟩ := front?_eq_some_iff.mp found
  rw [Numeral.text, whole, fraction]
  conv => right; rw [← List.takeWhile_append_dropWhile (p := Char.isDigit) (l := text)]
  exact (List.prefix_append_right_inj _).mpr (frontFraction_begins _)

theorem text_ne_nil {text : List Char} {numeral : Numeral} (found : front? text = some numeral) :
    numeral.text ≠ [] :=
  (front?_eq_some_iff.mp found).2.2

theorem isDigit_of_mem {text : List Char} {numeral : Numeral} (found : front? text = some numeral)
    {c : Char} (member : c ∈ numeral.whole ++ numeral.fraction) : c.isDigit = true := by
  obtain ⟨whole, fraction, _⟩ := front?_eq_some_iff.mp found
  rw [whole, fraction] at member
  rcases List.mem_append.mp member with before | after
  · exact List.all_eq_true.mp List.all_takeWhile c before
  · unfold frontFraction at after
    split at after
    · exact List.all_eq_true.mp List.all_takeWhile c after
    · cases after

end Numeral
end Calculator
