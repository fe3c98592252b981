import Calculator.Binary64.Arithmetic
import Calculator.Expr.Basic

/-!
The value of an expression: every node is worked out from the values of its operands by one
operation on binary64 numbers, so every node is rounded once.
-/
namespace Calculator

/-- What an operator makes of the values of its operands. -/
def Operator.apply : Operator → Binary64 → Binary64 → Binary64
  | add => Binary64.add
  | subtract => Binary64.sub
  | multiply => Binary64.mul
  | divide => Binary64.div

def Expr.value : Expr → Binary64
  | number x => x
  | negate operand => operand.value.neg
  | binary operator left right => operator.apply left.value right.value

end Calculator
