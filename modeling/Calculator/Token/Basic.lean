import Calculator.Decimal.Text

/-!
The tokens of the language, and tokens placed in a source.

A token is a parenthesis, an operator symbol or a number. A lexeme is a token together with the
stretch of the source that it stands on, in bytes of the source's UTF-8 encoding.
-/
namespace Calculator

inductive Token where
  | leftParen
  | rightParen
  | minus
  | plus
  | slash
  | star
  | literal (value : Binary64)
  deriving DecidableEq

/-- A stretch of a source: the offsets of its first byte and of the byte behind its last. -/
structure Span where
  start : Nat
  stop : Nat
  deriving DecidableEq

/-- A token at its place in a source. -/
structure Lexeme where
  token : Token
  span : Span
  deriving DecidableEq

namespace Token

/-- A token as it is written; a number is written in its own way, not as the source had it. -/
def text : Token → String
  | leftParen => "("
  | rightParen => ")"
  | minus => "-"
  | plus => "+"
  | slash => "/"
  | star => "*"
  | literal value => value.text

/-- The token that a character stands for on its own. -/
def ofSymbol? : Char → Option Token
  | '(' => some leftParen
  | ')' => some rightParen
  | '-' => some minus
  | '+' => some plus
  | '/' => some slash
  | '*' => some star
  | _ => none

/-- The same token, numbers compared numerically. -/
def numEq : Token → Token → Bool
  | literal x, literal y => x.numEq y
  | a, b => a == b

end Token
end Calculator
