import Calculator.CommandLine.Block
import Calculator.Proofs.Grammar.Relocation
import Calculator.Proofs.Token.Line

/-!
The line that shows the tokens of a source, as a source of its own.

Every number that scanning gives is written so that it is read back, and no token runs into the next
one across a space, so the line has the same tokens. They stand at other places, and that makes no
difference but to the position of an error, which stays with the token that it is about.

Main statement: the line is scanned to the tokens that it shows, is its own line, and forms the same
tree, or fails at the same token (`scan_tokensLine`).
-/
namespace Calculator.CommandLine

open Grammar

theorem tokensLine_eq (lexemes : List Lexeme) :
    tokensLine lexemes = Token.line (tokens lexemes) := by
  rw [tokensLine, Token.line, tokens, List.map_map]
  rfl

/-- The line that shows the tokens of a source is scanned to these tokens, numbers to the bit, and
shows them as it is itself. The same tree is formed from it, or parsing fails with the same error,
at the lexeme with the same number or at the end of the last one in both. -/
theorem scan_tokensLine (source : String) (found : List Lexeme)
    (scanned : Token.scan source = .ok found) :
    ∃ again, Token.scan (tokensLine found) = .ok again ∧ tokens again = tokens found ∧
      tokensLine again = tokensLine found ∧
      ((∃ e, Expr.ofLexemes found = .ok e ∧ Expr.ofLexemes again = .ok e) ∨
        ∃ (error : ParseError) (index : Nat),
          Expr.ofLexemes found = .error (error.relocate fun _ => (spanAt found index).start) ∧
            Expr.ofLexemes again =
              .error (error.relocate fun _ => (spanAt again index).start)) := by
  have scans := (Token.scan_eq_ok_iff_scans source found).mp scanned
  obtain ⟨again, scansLine, same⟩ := Token.scans_line scans.isScanned 0
  rw [← tokensLine_eq] at scansLine
  refine ⟨again, (Token.scan_eq_ok_iff_scans _ _).mpr scansLine, same, ?_,
    ofLexemes_of_same_tokens same.symm⟩
  rw [tokensLine_eq, tokensLine_eq, same]

/-- The parenthesis is not closed in either text, and both errors are at the end. -/
theorem scan_tokensLine_unclosed :
    ∃ found again, Token.scan "\t.50*(2 " = .ok found ∧ tokensLine found = "0.5 * ( 2" ∧
      Token.scan "0.5 * ( 2" = .ok again ∧ tokens again = tokens found ∧
      Expr.ofLexemes found = .error (.unexpected none (some .rightParen) 7) ∧
      Expr.ofLexemes again = .error (.unexpected none (some .rightParen) 9) := by
  let half : Token := .literal ⟨false, 0x3FE0000000000000, by decide⟩
  let two : Token := .literal ⟨false, 0x4000000000000000, by decide⟩
  have scanned : Token.scan "\t.50*(2 " =
      .ok [⟨half, 1, 4⟩, ⟨.star, 4, 5⟩, ⟨.leftParen, 5, 6⟩, ⟨two, 6, 7⟩] := by decide +kernel
  have line : tokensLine [⟨half, 1, 4⟩, ⟨.star, 4, 5⟩, ⟨.leftParen, 5, 6⟩, ⟨two, 6, 7⟩] =
      "0.5 * ( 2" := by decide +kernel
  obtain ⟨again, rescanned, same, _⟩ := scan_tokensLine _ _ scanned
  rw [line] at rescanned
  have places : Token.scan "0.5 * ( 2" =
      .ok [⟨half, 0, 3⟩, ⟨.star, 4, 5⟩, ⟨.leftParen, 6, 7⟩, ⟨two, 8, 9⟩] := by decide +kernel
  cases places.symm.trans rescanned
  exact ⟨_, _, scanned, line, rescanned, same, by decide +kernel, by decide +kernel⟩

end Calculator.CommandLine
