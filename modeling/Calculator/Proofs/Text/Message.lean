import Calculator.Proofs.Text.Printable
import Mathlib

/-!
What a failure's message tells about it.

A message begins with the position, whose digits end at a colon. Behind it stands a fixed sentence
with tokens in quotation marks. No token has a quotation mark in its text, so the sentence falls
apart at these marks, and what is between them is fixed, or the text of a token. Only the character
that cannot be read may be a quotation mark itself. It is alone in its sentence, and escapes do not
meet: each has a length of its own kind, and within a kind its own letter, character or number.

Main statement: a message is one line that begins with the position, it is the message of the cause,
and it tells failures apart but for what the text of a number does not show
(`Failure.message_eq_iff_alike`).
-/
namespace Calculator

namespace Binary64

/-- Numbers that differ at most in what their text does not show: the sign and the payload of what
is not a number, and the sign of a zero. -/
def Alike (x y : Binary64) : Prop :=
  x = y ∨ (x.isNaN = true ∧ y.isNaN = true) ∨ (x.isZero = true ∧ y.isZero = true)

theorem text_eq_iff_alike (x y : Binary64) : x.text = y.text ↔ x.Alike y := by
  constructor
  · intro same
    cases isNaNX : x.isNaN with
    | true =>
      rw [text_of_isNaN isNaNX] at same
      exact .inr (.inl ⟨isNaNX, isNaN_of_text_eq same.symm⟩)
    | false =>
      have isNaNY : y.isNaN = false := by
        refine eq_false_of_ne_true fun isNaNY => ?_
        rw [text_of_isNaN isNaNY] at same
        rw [isNaN_of_text_eq same] at isNaNX
        cases isNaNX
      have equal := (numEq_iff_text_eq isNaNX isNaNY).mpr same
      simp only [numEq, isNaNX, Bool.not_false, Bool.true_and, Bool.or_eq_true, beq_iff_eq,
        Bool.and_eq_true] at equal
      exact equal.imp_right .inr
  · rintro (rfl | ⟨isNaNX, isNaNY⟩ | ⟨zeroX, zeroY⟩)
    · rfl
    · rw [text_of_isNaN isNaNX, text_of_isNaN isNaNY]
    · rw [text_of_isZero zeroX, text_of_isZero zeroY]

end Binary64

namespace Token

/-- The same symbol, or numbers that are written alike. -/
def Alike : Token → Token → Prop
  | literal x, literal y => x.Alike y
  | token, other => token = other

end Token

namespace ParseError

/-- Errors of the same kind at the same place, with tokens and limits that are written alike. -/
def Alike : ParseError → ParseError → Prop
  | missingOperand found position, missingOperand found' position' =>
    Option.Rel Token.Alike found found' ∧ position = position'
  | unexpected found expected position, unexpected found' expected' position' =>
    Option.Rel Token.Alike found found' ∧ Option.Rel Token.Alike expected expected' ∧
      position = position'
  | tooDeep limit position, tooDeep limit' position' => limit = limit' ∧ position = position'
  | _, _ => False

end ParseError

/-- Failures that differ at most in what the texts of numbers do not show. -/
def Failure.Alike : Failure → Failure → Prop
  | scan error, scan other =>
    error.character = other.character ∧ error.position = other.position
  | parse error, parse other => error.Alike other
  | _, _ => False

/-- What stands in front of the first of some marks is told by the whole. -/
theorem eq_of_append_cons_eq {mark : Char} {front front' rest rest' : List Char}
    (apart : mark ∉ front) (apart' : mark ∉ front')
    (same : front ++ mark :: rest = front' ++ mark :: rest') : front = front' ∧ rest = rest' := by
  have others {front : List Char} (apart : mark ∉ front) : ∀ c ∈ front, (c != mark) = true := by
    intro c member
    rw [bne_iff_ne]
    rintro rfl
    exact apart member
  have fronts := congrArg (List.takeWhile (· != mark)) same
  rw [List.takeWhile_append_of_pos (others apart), List.takeWhile_append_of_pos (others apart')]
    at fronts
  obtain rfl : front = front' := by simpa using fronts
  exact ⟨rfl, (List.cons.inj (List.append_cancel_left same)).2⟩

/-- Digits up to hexadecimal tell the number that they are of. -/
theorem eq_of_toDigits_eq {base n m : Nat} (several : 1 < base) (few : base ≤ 16)
    (same : Nat.toDigits base n = Nat.toDigits base m) : n = m := by
  have digits {n m : Nat} (small : n < base) (small' : m < base)
      (same : n.digitChar = m.digitChar) : n = m := by
    have all : ∀ n < 16, ∀ m < 16, n.digitChar = m.digitChar → n = m := by decide
    exact all n (Nat.lt_of_lt_of_le small few) m (Nat.lt_of_lt_of_le small' few) same
  have positive := Nat.zero_lt_of_lt several
  -- The last digit is that of the remainder, and the others are those of the quotient.
  induction n using Nat.strongRecOn generalizing m with
  | ind n ih =>
    rw [Nat.toDigits_eq_if several, Nat.toDigits_eq_if (n := m) several] at same
    split at same <;> split at same
    next small small' => exact digits small small' (List.singleton_inj.mp same)
    next => simp [List.singleton_eq_append_iff, Nat.toDigits_ne_nil] at same
    next => simp [List.append_eq_singleton_iff, Nat.toDigits_ne_nil] at same
    next large _ =>
      obtain ⟨front, last⟩ := List.append_singleton_inj.mp same
      have shorter : n / base < n := Nat.div_lt_self (by omega) several
      have fronts := ih (n / base) shorter front
      have lasts := digits (Nat.mod_lt n positive) (Nat.mod_lt m positive) last
      rw [← Nat.div_add_mod n base, ← Nat.div_add_mod m base, fronts, lasts]

theorem not_mem_repr {c : Char} (notDigit : c.isDigit = false) (n : Nat) :
    c ∉ (Nat.repr n).toList := by
  intro member
  rw [Nat.toList_repr] at member
  rw [Nat.isDigit_of_mem_toDigits (by decide) (by decide) member] at notDigit
  cases notDigit

/-- The digits of the position end at a colon. -/
theorem toList_messageAt (position : Nat) (description : String) :
    (messageAt position description).toList =
      "Error at position ".toList ++
        ((Nat.repr position).toList ++ ':' :: ' ' :: description.toList) := by
  have colon : ": ".toList = [':', ' '] := by decide
  unfold messageAt
  simp only [String.toList_append, colon]
  exact List.append_assoc ..

theorem messageAt_eq_iff (position position' : Nat) (description description' : String) :
    messageAt position description = messageAt position' description' ↔
      position = position' ∧ description = description' := by
  constructor
  · intro same
    have texts := congrArg String.toList same
    rw [toList_messageAt, toList_messageAt] at texts
    obtain ⟨digits, rest⟩ := eq_of_append_cons_eq (not_mem_repr (by decide) position)
      (not_mem_repr (by decide) position') (List.append_cancel_left texts)
    exact ⟨Nat.repr_inj.mp (String.toList_inj.mp digits),
      String.toList_inj.mp (List.cons.inj rest).2⟩
  · rintro ⟨rfl, rfl⟩
    rfl

/-- The characters with a letter of their own in their escape, and these letters. -/
def escapeLetters : List (Char × Char) :=
  [('\t', 't'), ('\n', 'n'), ('\r', 'r'), ('\'', '\''), ('"', '"'), ('\\', '\\')]

theorem escape_cases (c : Char) :
    (∃ letter, (c, letter) ∈ escapeLetters ∧ (escape c).toList = ['\\', letter]) ∨
      (escape c).toList = [c] ∨
      (escape c).toList = ['\\', 'u', '\x7b'] ++ Nat.toDigits 16 c.toNat ++ ['\x7d'] := by
  unfold escape
  split
  iterate 6 exact .inl ⟨_, by decide, rfl⟩
  split
  next => exact .inr (.inl (String.toList_singleton c))
  next =>
    refine .inr (.inr ?_)
    have brace : "\x7d".toList = ['\x7d'] := by decide
    rw [String.toList_append, String.toList_append, brace]
    exact congrArg (['\\', 'u', '\x7b'] ++ · ++ ['\x7d']) String.toList_ofList

theorem eq_of_escape_eq {c d : Char} (same : escape c = escape d) : c = d := by
  have letters : ∀ pair ∈ escapeLetters, ∀ pair' ∈ escapeLetters,
      pair.2 = pair'.2 → pair.1 = pair'.1 := by decide
  have texts := congrArg String.toList same
  rcases escape_cases c with ⟨letter, listed, text⟩ | text | text <;>
    rcases escape_cases d with ⟨letter', listed', text'⟩ | text' | text' <;>
    rw [text, text'] at texts
  · exact letters _ listed _ listed' (by simpa using texts)
  · simp at texts
  · simp at texts
  · simp at texts
  · exact List.singleton_inj.mp texts
  · simp at texts
  · simp at texts
  · simp at texts
  · have digits := List.append_cancel_left (List.append_cancel_right texts)
    exact Char.toNat_inj.mp (eq_of_toDigits_eq (by decide) (by decide) digits)

namespace Token

theorem symbol_text_ne {symbol : Token} (notNumber : ∀ x, symbol ≠ literal x) (x : Binary64) :
    symbol.text ≠ x.text := by
  intro same
  have listed : symbol.text.toList.all Binary64.textChars.contains = true :=
    List.all_eq_true.mpr fun c member => List.contains_iff_mem.mpr (x.mem_text (same ▸ member))
  cases symbol with
  | literal y => exact notNumber y rfl
  | minus => exact x.text_ne_minus same.symm
  | leftParen | rightParen | plus | slash | star => exact absurd listed (by decide)

theorem text_eq_iff_alike (token other : Token) : token.text = other.text ↔ token.Alike other := by
  cases token with
  | literal x =>
    cases other with
    | literal y => exact x.text_eq_iff_alike y
    | leftParen | rightParen | minus | plus | slash | star =>
      exact iff_of_false (symbol_text_ne (by simp) x).symm (by simp [Alike])
  | leftParen | rightParen | minus | plus | slash | star =>
    cases other with
    | literal y => exact iff_of_false (symbol_text_ne (by simp) y) (by simp [Alike])
    | leftParen | rightParen | minus | plus | slash | star => simp [text, Alike]

theorem quote_not_mem_text (token : Token) : '\'' ∉ token.text.toList := by
  cases token with
  | literal value => exact fun member => absurd (value.mem_text member) (by decide)
  | leftParen | rightParen | minus | plus | slash | star => decide

end Token

namespace ParseError

/-- What stands between the quotation marks of a description. -/
def parts : ParseError → List String
  | missingOperand (some found) _ => ["Expected a number but found ", found.text, "."]
  | missingOperand none _ => ["Expected a number but the input ended."]
  | unexpected (some found) (some expected) _ =>
    ["Expected ", expected.text, " but found ", found.text, "."]
  | unexpected none (some expected) _ => ["Expected ", expected.text, " but the input ended."]
  | unexpected (some found) none _ =>
    ["Extra tokens after expression, starting at ", found.text, "."]
  | unexpected none none _ => ["Unexpected token."]
  | tooDeep limit _ => ["Expression nests deeper than " ++ Nat.repr limit ++ " levels."]

theorem description_eq_intercalate (error : ParseError) :
    error.description = "'".intercalate error.parts := by
  apply String.toList_inj.mp
  rcases error with ⟨_ | found, _⟩ | ⟨_ | found, _ | expected, _⟩ | ⟨limit, _⟩ <;>
    unfold description parts <;>
    simp

theorem quote_not_mem_parts (error : ParseError) : ∀ part ∈ error.parts, '\'' ∉ part.toList := by
  have limits (limit : Nat) := not_mem_repr (c := '\'') (by decide) limit
  simp only [Nat.toList_repr] at limits
  rcases error with ⟨_ | found, _⟩ | ⟨_ | found, _ | expected, _⟩ | ⟨limit, _⟩ <;>
    simp [parts, Token.quote_not_mem_text, limits]

theorem description_eq_iff (error other : ParseError) :
    error.description = other.description ↔ error.parts = other.parts := by
  -- Since no part has a quotation mark in it, a description is cut at its marks into its parts.
  have split (error : ParseError) :
      error.description.toList.splitOn '\'' = error.parts.map String.toList := by
    rw [description_eq_intercalate, String.toList_intercalate]
    refine List.splitOn_intercalate '\'' ?_ ?_
    · exact List.forall_mem_map.mpr error.quote_not_mem_parts
    · unfold parts
      split <;> simp
  constructor
  · intro same
    have parts : error.parts.map String.toList = other.parts.map String.toList := by
      rw [← split, ← split, same]
    exact (List.map_inj_right fun _ _ => String.toList_inj.mp).mp parts
  · intro same
    rw [description_eq_intercalate, description_eq_intercalate, same]

theorem alike_iff (error other : ParseError) :
    error.Alike other ↔
      error.position = other.position ∧ error.description = other.description := by
  -- Among the sentences without a quotation mark, only one begins like the one with the limit.
  have apart {text : String} (others : ¬ "Expression nests deeper than ".toList <+: text.toList)
      (limit : Nat) : "Expression nests deeper than " ++ Nat.repr limit ++ " levels." ≠ text := by
    rintro rfl
    exact others (by simp)
  have ended := @apart "Expected a number but the input ended." (by decide)
  have none := @apart "Unexpected token." (by decide)
  rw [description_eq_iff]
  rcases error with ⟨_ | found, _⟩ | ⟨_ | found, _ | expected, _⟩ | ⟨limit, _⟩ <;>
    rcases other with ⟨_ | found', _⟩ | ⟨_ | found', _ | expected', _⟩ | ⟨limit', _⟩ <;>
    simp [Alike, parts, position, Token.text_eq_iff_alike, ended, none, (ended _).symm,
      (none _).symm, and_comm, and_left_comm]

end ParseError

/-- A description of a character that cannot be read begins like no other one. -/
theorem ScanError.invalid_ne_description (text : String) (error : ParseError) :
    "Invalid token '" ++ text ≠ error.description := by
  intro same
  have first : error.description.toList.head? = some 'I' := by
    rw [← same, String.toList_append]
    rfl
  rcases error with ⟨_ | found, _⟩ | ⟨_ | found, _ | expected, _⟩ | ⟨limit, _⟩ <;>
    unfold ParseError.description at first <;>
    simp at first

theorem ScanError.message_ne (error : ScanError) (other : ParseError) :
    error.message ≠ other.message := by
  intro same
  obtain ⟨-, descriptions⟩ := (messageAt_eq_iff _ _ _ _).mp same
  rw [String.append_assoc] at descriptions
  exact invalid_ne_description _ other descriptions

theorem ScanError.message_eq_iff (error other : ScanError) :
    error.message = other.message ↔
      error.character = other.character ∧ error.position = other.position := by
  unfold message
  rw [messageAt_eq_iff, and_comm]
  refine and_congr_left' ⟨fun same => ?_, fun same => by rw [same]⟩
  exact eq_of_escape_eq ((String.append_right_inj _).mp ((String.append_left_inj _).mp same))

namespace Failure

/-- A message begins with the position of the failure, and it is the message of its cause. It is one
line, and two messages are the same exactly if the failures are, but for what the texts of numbers
do not show. -/
theorem message_eq_iff_alike (failure other : Failure) :
    Printable failure.message ∧
      (∃ description, failure.message =
        "Error at position " ++ Nat.repr failure.position ++ ": " ++ description) ∧
      failure.cause.elim ScanError.message ParseError.message = failure.message ∧
      (failure.message = other.message ↔ failure.Alike other) := by
  refine ⟨failure.printable_message, ?_, ?_, ?_⟩
  · cases failure <;> exact ⟨_, rfl⟩
  · cases failure <;> rfl
  · cases failure with
    | scan error =>
      cases other with
      | scan other => exact error.message_eq_iff other
      | parse other => exact iff_of_false (error.message_ne other) id
    | parse error =>
      cases other with
      | scan other => exact iff_of_false (other.message_ne error).symm id
      | parse other => exact (messageAt_eq_iff _ _ _ _).trans (error.alike_iff other).symm

end Failure
end Calculator
