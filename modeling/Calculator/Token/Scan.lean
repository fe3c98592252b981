import Calculator.Failure
import Calculator.Numeral

/-!
Scanning: a source cut into lexemes, from left to right.

Blanks are passed over, a symbol is a token of its own, and at a digit or a point the longest
numeral is taken. Scanning stops at the first place where a character is none of these, or where a
numeral is too large for a finite number.

Every character before such a place is ASCII, one byte long, so counting characters counts bytes.

Main statements: no piece of a source is empty (`length_pos`), and what was found before a place
has no influence on what is found from there on (`scanFrom_append`).
-/
namespace Calculator.Token

/-- The characters that separate tokens and mean nothing else. -/
def isBlank (c : Char) : Bool := c == ' ' || c == '\t' || c == '\r' || c == '\n'

/-- What stands at the front of a source, a token or a blank, and how many characters it takes. -/
structure Piece where
  token : Option Token
  length : Nat
  deriving DecidableEq

namespace Piece

/-- The piece that a numeral makes, if its number is finite. -/
def ofNumeral? (numeral : Numeral) : Option Piece :=
  if numeral.number.isFinite then some ⟨some (literal numeral.number), numeral.text.length⟩
  else none

def front? (source : List Char) : Option Piece :=
  match source with
  | [] => none
  | c :: _ =>
    if isBlank c then some ⟨none, 1⟩
    else match ofSymbol? c with
      | some symbol => some ⟨some symbol, 1⟩
      | none => (Numeral.front? source).bind ofNumeral?

/-- The lexeme that a piece at this offset makes, if it is a token. -/
def lexemes (piece : Piece) (offset : Nat) : List Lexeme :=
  match piece.token with
  | some token => [⟨token, offset, offset + piece.length⟩]
  | none => []

theorem length_pos {source : List Char} {piece : Piece} (found : front? source = some piece) :
    0 < piece.length := by
  unfold front? at found
  split at found
  · cases found
  next c rest =>
    split at found
    · cases found
      exact Nat.one_pos
    · split at found
      · cases found
        exact Nat.one_pos
      · obtain ⟨numeral, front, made⟩ := Option.bind_eq_some_iff.mp found
        unfold ofNumeral? at made
        split at made
        · cases made
          exact List.length_pos_iff.mpr (Numeral.text_ne_nil front)
        · cases made

end Piece

/-- Scans the rest of a source from a byte offset on; what was found before comes first, and is
kept in reverse order. -/
def scanFrom (source : List Char) (offset : Nat) (found : List Lexeme) :
    Except ScanError (List Lexeme) :=
  match source with
  | [] => .ok found.reverse
  | c :: rest =>
    match Piece.front? (c :: rest) with
    | none => .error ⟨c, offset⟩
    | some piece =>
      scanFrom (rest.drop (piece.length - 1)) (offset + piece.length)
        (piece.lexemes offset ++ found)
termination_by source.length
decreasing_by
  rw [List.length_drop, List.length_cons]
  omega

theorem scanFrom_append (source : List Char) (offset : Nat) (found earlier : List Lexeme) :
    scanFrom source offset (found ++ earlier) =
      (scanFrom source offset found).map (earlier.reverse ++ ·) := by
  fun_induction scanFrom source offset found with
  | case1 offset found =>
    rw [scanFrom, List.reverse_append]
    rfl
  | case2 offset found c rest nothing =>
    rw [scanFrom, nothing]
    rfl
  | case3 offset found c rest piece front ih =>
    rw [List.append_assoc] at ih
    rw [scanFrom, front]
    exact ih

/-- The lexemes of a source, in order, or the first place where none can be read. -/
def scan (source : String) : Except ScanError (List Lexeme) := scanFrom source.toList 0 []

end Calculator.Token
