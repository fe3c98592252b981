import Calculator.Binary64.Basic

/-!
Arithmetic expressions as trees: numbers at the leaves, one negation and four operations above.

Grouping is the shape of the tree, so there is no node for parentheses. Two trees are equal when
they have the same shape and their numbers are numerically equal (`Expr.numEq`), so a tree with a
leaf that is not a number differs even from itself.
-/
namespace Calculator

/-- An operation with a left and a right operand. -/
inductive Operator where
  | add
  | subtract
  | multiply
  | divide
  deriving DecidableEq

inductive Expr where
  | number (value : Binary64)
  | negate (operand : Expr)
  | binary (operator : Operator) (left right : Expr)
  deriving DecidableEq

namespace Expr

/-- The number of nodes on the longest way from the root to a leaf. -/
def height : Expr → Nat
  | number _ => 1
  | negate operand => operand.height + 1
  | binary _ left right => max left.height right.height + 1

/-- The same shape with numerically equal leaves. -/
def numEq : Expr → Expr → Bool
  | number x, number y => x.numEq y
  | negate a, negate b => a.numEq b
  | binary operator a b, binary other c d => operator == other && a.numEq c && b.numEq d
  | _, _ => false

theorem height_pos (e : Expr) : 0 < e.height := by
  cases e <;> simp [height]

end Expr
end Calculator
