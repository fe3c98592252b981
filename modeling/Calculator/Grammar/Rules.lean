import Calculator.Cursor.Basic
import Calculator.Expr.Basic

/-!
The rules of the grammar, as functions that read from a cursor.

    expression     := additive
    additive       := multiplicative (("+" | "-") multiplicative)*
    multiplicative := unary (("*" | "/") unary)*
    unary          := "-" unary | primary
    primary        := number | grouping
    grouping       := "(" expression ")"

A rule gives a subtree or an error, and in either case the cursor where it stopped, with as many
levels open as at the start. A leading minus and a parenthesis each open a level, and what they
enclose is read by the rules of one level further in. Since a level is opened only while fewer than
the limit are open, a fixed number of levels is enough, and the rules are built from the innermost
level outwards, those of each level from the unary rule of the level inside it.

Every subtree comes with its height, counted while it is built, and a node that would be higher
than the limit is refused at its operator.

Main statements: a node is made exactly within the limit (`Subtree.ofNode_eq_ok_iff`), and an
operator is read exactly where the next lexeme is one (`nextOperator?_eq_some_iff`).
-/
namespace Calculator.Grammar

/-- A tree read from lexemes, with its height. -/
structure Subtree where
  expr : Expr
  height : Nat
  deriving DecidableEq

namespace Subtree

def ofNumber (value : Binary64) : Subtree := ⟨.number value, 1⟩

/-- A new node of this height for the operator at a position, unless it is too high. -/
def ofNode (expr : Expr) (height position : Nat) : Except ParseError Subtree :=
  if height ≤ depthLimit then .ok ⟨expr, height⟩ else .error (.tooDeep depthLimit position)

theorem ofNode_eq_ok_iff (expr : Expr) (height position : Nat) (made : Subtree) :
    ofNode expr height position = .ok made ↔ height ≤ depthLimit ∧ made = ⟨expr, height⟩ := by
  unfold ofNode
  split
  next within => simp [within, eq_comm]
  next beyond => simp [beyond]

def negated (operand : Subtree) (position : Nat) : Except ParseError Subtree :=
  ofNode (.negate operand.expr) (operand.height + 1) position

def joined (operator : Operator) (left right : Subtree) (position : Nat) :
    Except ParseError Subtree :=
  ofNode (.binary operator left.expr right.expr) (max left.height right.height + 1) position

end Subtree

/-- Reads a subtree from a cursor; the cursor where reading stopped is kept in any case. -/
abbrev Rule := Cursor → Except ParseError Subtree × Cursor

/-- Goes on with a subtree, if there is one. -/
@[inline]
def andThen (before : Except ParseError Subtree × Cursor)
    (continuation : Subtree → Rule) : Except ParseError Subtree × Cursor :=
  match before with
  | (.ok subtree, stopped) => continuation subtree stopped
  | (.error error, stopped) => (.error error, stopped)

/-- Follows a rule inside a level opened for the lexeme at a position, and closes the level. -/
def nested (position : Nat) (rule : Rule) : Rule := fun cursor =>
  match cursor.enter position with
  | .ok entered =>
    let (outcome, stopped) := rule entered
    (outcome, stopped.leave)
  | .error error => (.error error, cursor)

theorem nested_of_enter {position : Nat} {cursor entered : Cursor} (rule : Rule)
    (opened : cursor.enter position = .ok entered) :
    nested position rule cursor = ((rule entered).1, (rule entered).2.leave) := by
  rw [nested, opened]

/-- The operators that a level of precedence reads. -/
abbrev Operators := Token → Option Operator

def additiveOperator : Operators
  | .plus => some .add
  | .minus => some .subtract
  | _ => none

def multiplicativeOperator : Operators
  | .star => some .multiply
  | .slash => some .divide
  | _ => none

/-- The operator at the cursor and its position, if the next lexeme is one of these. -/
def nextOperator? (operators : Operators) (cursor : Cursor) : Option (Operator × Nat) :=
  cursor.peek?.bind fun lexeme =>
    (operators lexeme.token).map fun operator => (operator, lexeme.span.start)

theorem nextOperator?_eq_some_iff (operators : Operators) (cursor : Cursor) (operator : Operator)
    (position : Nat) :
    nextOperator? operators cursor = some (operator, position) ↔
      ∃ lexeme, cursor.peek? = some lexeme ∧ operators lexeme.token = some operator ∧
        lexeme.span.start = position := by
  simp only [nextOperator?, Option.bind_eq_some_iff, Option.map_eq_some_iff, Prod.mk.injEq]
  constructor
  · rintro ⟨lexeme, front, _, known, rfl, rfl⟩
    exact ⟨lexeme, front, known, rfl⟩
  · rintro ⟨lexeme, front, known, rfl⟩
    exact ⟨lexeme, front, operator, known, rfl, rfl⟩

/-- Joins operands to what is on their left for as long as an operator follows. Every round makes
the tree on the left higher, so as many rounds as a tree may be high are never used up. -/
def chain (operators : Operators) (operand : Rule) : Nat → Subtree → Rule
  | 0, left, cursor => (.ok left, cursor)
  | rounds + 1, left, cursor =>
    match nextOperator? operators cursor with
    | none => (.ok left, cursor)
    | some (operator, position) =>
      andThen (operand cursor.skip) fun right stopped =>
        match Subtree.joined operator left right position with
        | .ok higher => chain operators operand rounds higher stopped
        | .error error => (.error error, stopped)

/-- Operands with operators between them, grouped from the left. -/
def leftAssociative (operators : Operators) (operand : Rule) : Rule := fun cursor =>
  andThen (operand cursor) (chain operators operand depthLimit)

def multiplicative (unary : Rule) : Rule := leftAssociative multiplicativeOperator unary

def additive (unary : Rule) : Rule := leftAssociative additiveOperator (multiplicative unary)

def expression (unary : Rule) : Rule := additive unary

/-- Reads the closing parenthesis behind an expression, which leaves no node of its own. -/
def close (inner : Subtree) : Rule := fun cursor =>
  match cursor.peek? with
  | some ⟨.rightParen, _⟩ => (.ok inner, cursor.skip)
  | some ⟨token, span⟩ =>
    (.error (.unexpected (some token) (some .rightParen) span.start), cursor)
  | none => (.error (.unexpected none (some .rightParen) cursor.stop), cursor)

/-- An expression between parentheses, the first of which is the next lexeme, at this position.
`inner` is the unary rule of the next level. -/
def grouping (inner : Rule) (position : Nat) : Rule := fun cursor =>
  andThen (nested position (expression inner) cursor.skip) close

def primary (inner : Rule) : Rule := fun cursor =>
  match cursor.peek? with
  | some ⟨.literal value, _⟩ => (.ok (.ofNumber value), cursor.skip)
  | some ⟨.leftParen, span⟩ => grouping inner span.start cursor
  | some ⟨token, span⟩ => (.error (.missingOperand (some token) span.start), cursor)
  | none => (.error (.missingOperand none cursor.stop), cursor)

/-- A primary with any number of minuses in front; `inner` is this rule one level further in. -/
def unary (inner : Rule) : Rule := fun cursor =>
  match cursor.peek? with
  | some ⟨.minus, span⟩ =>
    andThen (nested span.start inner cursor.skip) fun operand stopped =>
      (operand.negated span.start, stopped)
  | _ => primary inner cursor

/-- What stands for the rules beyond the last level. It is never reached, because no level can be
opened there. -/
def beyond : Rule := fun cursor => (.error (.tooDeep depthLimit cursor.stop), cursor)

/-- The unary rule with this many levels of rules in all, its own included. -/
def unaryOf : Nat → Rule
  | 0 => beyond
  | levels + 1 => unary (unaryOf levels)

/-- The unary rule outside of all levels. -/
def outermost : Rule := unaryOf (depthLimit + 1)

end Grammar

/-- The tree that a whole row of lexemes forms, or why it forms none. -/
def Expr.ofLexemes (lexemes : List Lexeme) : Except ParseError Expr :=
  match Grammar.expression Grammar.outermost (Cursor.ofLexemes lexemes) with
  | (.ok subtree, stopped) =>
    match stopped.peek? with
    | some extra => .error (.unexpected (some extra.token) none extra.span.start)
    | none => .ok subtree.expr
  | (.error error, _) => .error error

end Calculator
