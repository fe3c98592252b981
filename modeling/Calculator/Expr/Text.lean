import Calculator.Decimal.Text
import Calculator.Expr.Basic

/-!
The written form of a tree: an operation stands in parentheses in front of its operands, so the
text shows the shape of the tree and needs no precedence.
-/
namespace Calculator

def Operator.symbol : Operator → String
  | add => "+"
  | subtract => "-"
  | multiply => "*"
  | divide => "/"

def Expr.text : Expr → String
  | number x => x.text
  | negate operand => "(- " ++ operand.text ++ ")"
  | binary operator left right =>
    "(" ++ operator.symbol ++ " " ++ left.text ++ " " ++ right.text ++ ")"

theorem Operator.symbol_inj {a b : Operator} (same : a.symbol = b.symbol) : a = b := by
  cases a <;> cases b <;> first | rfl | exact absurd same (by decide)

end Calculator
