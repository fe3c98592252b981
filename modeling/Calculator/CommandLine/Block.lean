import Calculator.CommandLine.Request
import Calculator.Compute

/-!
What is printed for one line: the views asked for, as far as the line gets, and its result.
-/
namespace Calculator.CommandLine

/-- The outcome of one line, with the lines shown before it. -/
structure Block where
  shown : List String
  outcome : Except Failure String

/-- The line that stands for a result where there is none. -/
def failureMark : String := "Error"

/-- The line that shows tokens: their texts with a space between them. -/
def tokensLine (lexemes : List Lexeme) : String :=
  " ".intercalate (lexemes.map (·.token.text))

namespace Block

/-- Computes one line. The tokens are shown if it scans, the tree if it parses. -/
def ofLine (views : Views) (line : String) : Block :=
  match lexemes line with
  | .error failure => ⟨[], .error failure⟩
  | .ok found =>
    let tokens := if views.tokens then [tokensLine found] else []
    match treeOf found with
    | .error failure => ⟨tokens, .error failure⟩
    | .ok tree => ⟨tokens ++ if views.tree then [tree.text] else [], .ok tree.value.text⟩

def succeeded (block : Block) : Bool :=
  match block.outcome with
  | .ok _ => true
  | .error _ => false

/-- The lines for standard output. -/
def output (block : Block) : List String :=
  block.shown ++
    match block.outcome with
    | .ok result => [result]
    | .error _ => [failureMark]

/-- The lines for standard error. -/
def errors (block : Block) : List String :=
  match block.outcome with
  | .ok _ => []
  | .error failure => [failure.message]

end Block
end Calculator.CommandLine
