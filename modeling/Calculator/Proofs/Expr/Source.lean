import Calculator.Proofs.Expr.Numbers
import Calculator.Proofs.Token.Line

/-!
Trees written as sources, with no more parentheses than the grammar needs.

An operation stands in parentheses where its precedence is too low for its place: as an operand of a
negation, as an operand of a tighter operation, or to the right of an operation of its own
precedence. A number and a negation never do.

A pair of parentheses opens a level and a tree has no node for it, so a source may be nested deeper
than its tree is high. Written in this way it is not: nothing but an operation is enclosed, and an
operation opens no level by itself, so its own node makes up for the level of the parentheses. By
induction on the tree, every part is nested less than it is high, in whatever place it is written.

Main statement: the trees that sources have are those within the limit of height whose numbers are
finite and have no sign, and each of these is the tree of its own source (`exists_tree_iff`).
-/
namespace Calculator

open Grammar

/-- Whether an operation can stand in a place without parentheses. -/
def Grammar.Category.admits : Category → Precedence → Bool
  | .row .additive, _ => true
  | .row .multiplicative, precedence => precedence == .multiplicative
  | .unary, _ => false
  | .primary, _ => false

namespace Expr

/-- The tokens of a tree in a place where this category is read. -/
def rowIn : Expr → Category → List Token
  | number x, _ => [.literal x]
  | negate operand, _ => .minus :: operand.rowIn .unary
  | binary operator left right, category =>
    let row := left.rowIn (.row operator.precedence) ++
      operator.token :: right.rowIn operator.precedence.operand
    if category.admits operator.precedence then row else .leftParen :: row ++ [.rightParen]

/-- The source that a tree is written as, in infix notation. -/
def source (e : Expr) : String := Token.line (e.rowIn (.row .additive))

end Expr

namespace Grammar

variable {row : List Token} {nesting : Nat} {e : Expr}

/-- What a unary rule reads can stand in every place but that of a primary. -/
theorem Derives.ofUnary (derives : Derives .unary row nesting e) {category : Category}
    (place : category ≠ .primary) : Derives category row nesting e := by
  have factor := Derives.operand .multiplicative derives
  cases category with
  | row precedence =>
    cases precedence with
    | additive => exact .operand .additive factor
    | multiplicative => exact factor
  | unary => exact derives
  | primary => exact absurd rfl place

theorem Derives.ofRow {precedence : Precedence} (derives : Derives (.row precedence) row nesting e)
    {category : Category} (admitted : category.admits precedence = true) :
    Derives category row nesting e := by
  cases category with
  | row outer =>
    cases outer with
    | additive =>
      cases precedence with
      | additive => exact derives
      | multiplicative => exact .operand .additive derives
    | multiplicative =>
      cases precedence with
      | additive => cases admitted
      | multiplicative => exact derives
  | unary | primary => cases admitted

/-- Every part of a tree is nested less than it is high, in whatever place it is written. -/
theorem exists_derives_rowIn (e : Expr) (category : Category) (place : category ≠ .primary) :
    ∃ nesting < e.height, Derives category (e.rowIn category) nesting e := by
  induction e generalizing category with
  | number x => exact ⟨0, Nat.one_pos, (Derives.primary (.number x)).ofUnary place⟩
  | negate operand ih =>
    -- The minus opens one level, and the negation is one node.
    obtain ⟨nesting, lower, derives⟩ := ih .unary nofun
    exact ⟨nesting + 1, Nat.succ_lt_succ lower, derives.negation.ofUnary place⟩
  | binary operator left right ihLeft ihRight =>
    obtain ⟨nestingLeft, lowerLeft, first⟩ := ihLeft (.row operator.precedence) nofun
    obtain ⟨nestingRight, lowerRight, second⟩ :=
      ihRight operator.precedence.operand operator.precedence.operand_ne_primary
    have derives := Derives.operation operator first second
    -- The operation is one node and opens no level, so there is room for one more.
    have lower : max nestingLeft nestingRight + 1 < max left.height right.height + 1 := by omega
    rw [Expr.rowIn, Expr.height]
    split
    next admitted => exact ⟨_, Nat.lt_of_succ_lt lower, derives.ofRow admitted⟩
    · -- The parentheses take that room.
      have whole : Derives (.row .additive) _ _ _ := derives.ofRow rfl
      exact ⟨_, lower, (Derives.primary whole.group).ofUnary place⟩

end Grammar

/-- All tokens of a tree can be scanned if its numbers can. -/
theorem Grammar.Derives.isScanned {category : Category} {row : List Token} {nesting : Nat}
    {e : Expr} (derives : Derives category row nesting e)
    (unsigned : ∀ x ∈ e.numbers, x.isFinite = true ∧ x.negative = false) :
    ∀ token ∈ row, token.IsScanned := by
  intro token member
  cases token with
  | literal x =>
    refine unsigned x ?_
    rw [← derives.filterMap_number?]
    exact List.mem_filterMap.mpr ⟨_, member, rfl⟩
  | leftParen | rightParen | minus | plus | slash | star => trivial

theorem tree_source {e : Expr} (low : e.height ≤ depthLimit)
    (unsigned : ∀ x ∈ e.numbers, x.isFinite = true ∧ x.negative = false) :
    tree e.source = .ok e := by
  obtain ⟨nesting, lower, derives⟩ := exists_derives_rowIn e (.row .additive) nofun
  obtain ⟨found, scans, same⟩ := Token.scans_line (derives.isScanned unsigned) 0
  have nested : 0 + nesting ≤ depthLimit := by omega
  exact tree_of_derives scans (same ▸ derives) ⟨nested, low⟩

theorem height_of_tree {source : String} {e : Expr} (formed : tree source = .ok e) :
    e.height ≤ depthLimit := by
  obtain ⟨found, _, parsed⟩ := (tree_eq_ok_iff source e).mp formed
  obtain ⟨nesting, _, within⟩ := derives_of_ofLexemes parsed
  exact within.2

/-- The trees of sources are exactly those within the limit of height whose numbers are finite and
have no sign. Each of them is the tree of the source that it is written as, so no tree is out of
reach because of the levels that its source would have to open. -/
theorem exists_tree_iff (e : Expr) :
    ((∃ source, tree source = .ok e) ↔
      e.height ≤ depthLimit ∧ ∀ x ∈ e.numbers, x.isFinite = true ∧ x.negative = false) ∧
    ((∃ source, tree source = .ok e) → tree e.source = .ok e) := by
  have written (limits : e.height ≤ depthLimit ∧
      ∀ x ∈ e.numbers, x.isFinite = true ∧ x.negative = false) : tree e.source = .ok e :=
    tree_source limits.1 limits.2
  have limited : (∃ source, tree source = .ok e) →
      e.height ≤ depthLimit ∧ ∀ x ∈ e.numbers, x.isFinite = true ∧ x.negative = false :=
    fun ⟨_, formed⟩ => ⟨height_of_tree formed, fun _ => unsigned_of_tree formed⟩
  refine ⟨⟨limited, fun limits => ?_⟩, fun reached => ?_⟩
  · exact ⟨e.source, written limits⟩
  · exact written (limited reached)

/-- Three levels are open in the middle of this source, and the tree has four nodes above one
another. -/
example :
    let one : Expr := .number ⟨false, 0x3FF0000000000000, by decide⟩
    let e : Expr := .negate (.binary .subtract one (.binary .subtract one one))
    e.source = "- ( 1 - ( 1 - 1 ) )" ∧ e.height = 4 := by decide +kernel

end Calculator
