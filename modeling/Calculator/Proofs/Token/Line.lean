import Calculator.Proofs.Binary64.Nearest
import Calculator.Proofs.Grammar.Derivation
import Calculator.Proofs.ReadBack

/-!
Rows of tokens, written with a space between any two.

A token's text is read back as the token wherever no digit and no point follows, and a space is
neither. So a row can be written with single spaces, whatever the tokens are, if its numbers are
among those that scanning gives: a number that is not finite is written with letters, and a negative
one with a token of its own.

Main statement: what is written for a row is scanned to the row (`scans_line`).
-/
namespace Calculator.Token

/-- The texts of a row of tokens with single spaces between them. -/
def line (row : List Token) : String := " ".intercalate (row.map text)

/-- Whether scanning can give a token. -/
def IsScanned : Token → Prop
  | literal value => value.isFinite = true ∧ value.negative = false
  | _ => True

theorem number_numeral_unsigned {x : Binary64} (finite : x.isFinite = true)
    (unsigned : x.negative = false) : x.numeral.number = x := by
  have number : x.numeral.number = x.size := Binary64.number_numeral finite
  have same : x.size = x := Binary64.eq_of_magnitude_eq unsigned.symm rfl
  rw [number, same]

/-- A token that scanning can give stands where it is written, unless it is prolonged there. -/
theorem IsScanned.stands {token : Token} (scanned : token.IsScanned) {after : List Char}
    (apart : ∀ c ∈ after.head?, c ∉ '.' :: Numeral.digitChars) :
    Stands token token.text.toList after := by
  cases token with
  | literal x =>
    obtain ⟨finite, unsigned⟩ := scanned
    have number := number_numeral_unsigned finite unsigned
    have finiteNumber : x.numeral.number.isFinite = true := by rw [number, finite]
    have stands := stands_numeral (Binary64.plain_numeral finite).toProper finiteNumber apart
    have text : x.text.toList = x.numeral.text := by
      rw [Binary64.text_toList finite, unsigned, Bool.false_and, if_neg Bool.false_ne_true,
        List.nil_append]
    rwa [number, ← text] at stands
  | leftParen | rightParen | minus | plus | slash | star => rfl

/-- What stands somewhere can be given by scanning: a finite number, and without a sign. -/
theorem Stands.isScanned {token : Token} {text after : List Char}
    (stands : Stands token text after) : token.IsScanned := by
  cases token with
  | literal value =>
    obtain ⟨_, number⟩ := stands
    exact ⟨number.nearest.finite, number.positive⟩
  | leftParen | rightParen | minus | plus | slash | star => trivial

theorem Scans.isScanned {source : List Char} {offset : Nat} {found : List Lexeme}
    (scans : Scans source offset found) : ∀ token ∈ Grammar.tokens found, token.IsScanned := by
  induction scans with
  | done => exact nofun
  | blank isBlank others ih => exact ih
  | token stands others ih => exact List.forall_mem_cons.mpr ⟨stands.isScanned, ih⟩

theorem scans_line {row : List Token} (scanned : ∀ token ∈ row, token.IsScanned) (offset : Nat) :
    ∃ found, Scans (line row).toList offset found ∧ Grammar.tokens found = row := by
  induction row generalizing offset with
  | nil => exact ⟨[], .done offset, rfl⟩
  | cons token row ih =>
    have first := scanned token List.mem_cons_self
    cases row with
    | nil =>
      have stands : Stands token token.text.toList [] := first.stands nofun
      have scans := Scans.token stands (.done (offset + token.text.toList.length))
      rw [List.append_nil] at scans
      exact ⟨_, scans, rfl⟩
    | cons next row =>
      obtain ⟨found, scans, same⟩ :=
        ih (fun other member => scanned other (List.mem_cons_of_mem token member))
          (offset + token.text.toList.length + 1)
      have joined : (line (token :: next :: row)).toList =
          token.text.toList ++ ' ' :: (line (next :: row)).toList := by
        simp [line]
      -- What stands behind the token begins with the space, so no numeral goes on there.
      have stands : Stands token token.text.toList (' ' :: (line (next :: row)).toList) :=
        first.stands (by simp [Numeral.digitChars])
      rw [joined]
      refine ⟨_, .token stands (.blank rfl scans), ?_⟩
      rw [← same]
      rfl

end Calculator.Token
