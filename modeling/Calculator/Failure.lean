import Calculator.Token.Basic

/-!
What can go wrong with a source, where, and how it is told.

A source fails to scan at a character that begins no token, or at a number too large to be finite.
A row of tokens fails to parse where an operand is missing, where a token does not fit, or where
the expression is nested too deeply. Evaluation itself never fails.

A message is one line of printable ASCII: it begins with the position, and characters that would
break that rule are written as escapes.
-/
namespace Calculator

/-- A place in a source where no token can be read. -/
structure ScanError where
  character : Char
  position : Nat
  deriving DecidableEq

/-- A reason why tokens form no expression. -/
inductive ParseError where
  /-- An operand was needed and something else was found, or the end. -/
  | missingOperand (found : Option Token) (position : Nat)
  /-- A token was found where another one was expected, or where the expression was over. -/
  | unexpected (found expected : Option Token) (position : Nat)
  /-- The expression has more levels than the limit allows. -/
  | tooDeep (limit position : Nat)
  deriving DecidableEq

inductive Failure where
  | scan (error : ScanError)
  | parse (error : ParseError)
  deriving DecidableEq

/-- Whether a character is printable ASCII, the space included. -/
def isPrintable (c : Char) : Bool := 0x20 ≤ c.toNat && c.toNat ≤ 0x7e

/-- A character in printable ASCII: quotes, the backslash and three kinds of blanks are written
with a backslash and one more character, and anything else that is not printable by its number in
hexadecimal. -/
def escape (c : Char) : String :=
  match c with
  | '\t' => "\\t"
  | '\n' => "\\n"
  | '\r' => "\\r"
  | '\'' => "\\'"
  | '"' => "\\\""
  | '\\' => "\\\\"
  | _ =>
    if isPrintable c then String.singleton c
    else "\\u\x7b" ++ String.ofList (Nat.toDigits 16 c.toNat) ++ "\x7d"

/-- The text of an error at a position. -/
def messageAt (position : Nat) (description : String) : String :=
  "Error at position " ++ Nat.repr position ++ ": " ++ description

namespace ScanError

def message (error : ScanError) : String :=
  messageAt error.position ("Invalid token '" ++ escape error.character ++ "'.")

end ScanError

namespace ParseError

def position : ParseError → Nat
  | missingOperand _ position => position
  | unexpected _ _ position => position
  | tooDeep _ position => position

/-- An error told without its position. -/
def description : ParseError → String
  | missingOperand (some found) _ => "Expected a number but found '" ++ found.text ++ "'."
  | missingOperand none _ => "Expected a number but the input ended."
  | unexpected (some found) (some expected) _ =>
    "Expected '" ++ expected.text ++ "' but found '" ++ found.text ++ "'."
  | unexpected none (some expected) _ => "Expected '" ++ expected.text ++ "' but the input ended."
  | unexpected (some found) none _ =>
    "Extra tokens after expression, starting at '" ++ found.text ++ "'."
  | unexpected none none _ => "Unexpected token."
  | tooDeep limit _ => "Expression nests deeper than " ++ Nat.repr limit ++ " levels."

def message (error : ParseError) : String := messageAt error.position error.description

/-- Whether two tokens that may be absent are the same, numbers compared numerically. -/
def sameToken : Option Token → Option Token → Bool
  | some a, some b => a.numEq b
  | none, none => true
  | _, _ => false

def numEq : ParseError → ParseError → Bool
  | missingOperand found position, missingOperand found' position' =>
    sameToken found found' && position == position'
  | unexpected found expected position, unexpected found' expected' position' =>
    sameToken found found' && sameToken expected expected' && position == position'
  | tooDeep limit position, tooDeep limit' position' => limit == limit' && position == position'
  | _, _ => false

end ParseError

namespace Failure

/-- Where in the source a failure is. -/
def position : Failure → Nat
  | scan error => error.position
  | parse error => error.position

def cause : Failure → ScanError ⊕ ParseError
  | scan error => .inl error
  | parse error => .inr error

def message : Failure → String
  | scan error => error.message
  | parse error => error.message

def numEq : Failure → Failure → Bool
  | scan a, scan b => a == b
  | parse a, parse b => a.numEq b
  | _, _ => false

end Failure
end Calculator
