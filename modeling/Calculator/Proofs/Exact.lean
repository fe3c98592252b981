import Calculator.Proofs.Binary64.Exact
import Calculator.Proofs.Expr.Numbers
import Calculator.Proofs.ReadBack
import Mathlib.Control.Monad.Basic

/-!
Exact computations, from the source to the text of the result.

The exact value of a source is what its tree denotes in the rationals, when the leaves stand for the
decimals that are written in the source, and not for the numbers that these are rounded to. If every
decimal and the value of every part of the tree is that of a finite number, nothing is lost on the
way: by induction on the tree, every part is worked out to its exact value.

Main statement: such a source is evaluated to its exact value, and computes to the text of that
value, which for an integer is its decimal notation (`compute_exact`).
-/
namespace Calculator

open Binary64

/-- The exact value of a tree whose leaves stand for the decimals of a row, from left to right. The
value of every part must be that of a finite number, and no divisor zero. A negation needs no
condition, because numbers have their negatives. -/
inductive Expr.Denotes : Expr → List Rat → Rat → Prop
  | number (x : Binary64) {decimal : Rat} (representable : Representable decimal) :
      Denotes (.number x) [decimal] decimal
  | negate {operand : Expr} {row : List Rat} {value : Rat} (inner : Denotes operand row value) :
      Denotes (.negate operand) row (-value)
  | binary (operator : Operator) {left right : Expr} {rowLeft rowRight : List Rat} {a b : Rat}
      (first : Denotes left rowLeft a) (second : Denotes right rowRight b)
      (divisor : operator = .divide → b ≠ 0) (representable : Representable (operator.exact a b)) :
      Denotes (.binary operator left right) (rowLeft ++ rowRight) (operator.exact a b)

theorem Expr.Denotes.length_eq {e : Expr} {row : List Rat} {value : Rat}
    (denotes : e.Denotes row value) : e.numbers.length = row.length := by
  induction denotes with
  | number x representable => rfl
  | negate inner ih => exact ih
  | binary operator first second divisor representable ihFirst ihSecond =>
    rw [Expr.numbers, List.length_append, List.length_append, ihFirst, ihSecond]

/-- A tree whose leaves are decimals, rounded to nearest, is worked out to its exact value. -/
theorem Expr.Denotes.value_exact {e : Expr} {row : List Rat} {value : Rat}
    (denotes : e.Denotes row value) (rounded : e.numbers = row.map (nearest false))
    (unsigned : ∀ decimal ∈ row, 0 ≤ decimal) :
    e.value.isFinite = true ∧ e.value.toRat = value := by
  induction denotes with
  | @number x decimal representable =>
    obtain rfl : x = nearest false decimal := List.singleton_inj.mp rounded
    have positive := unsigned decimal List.mem_cons_self
    exact toRat_nearest representable (fun below => absurd below (not_lt_of_ge positive))
      fun _ => rfl
  | negate inner ih =>
    obtain ⟨finite, exact⟩ := ih rounded unsigned
    exact ⟨finite, by rw [Expr.value, toRat_neg, exact]⟩
  | binary operator first second divisor representable ihFirst ihSecond =>
    -- Both operands have as many leaves as decimals, so each has those that it is to have.
    rw [Expr.numbers, List.map_append] at rounded
    obtain ⟨roundedLeft, roundedRight⟩ := List.append_inj rounded (by simp [first.length_eq])
    obtain ⟨finiteLeft, rfl⟩ := ihFirst roundedLeft fun decimal member =>
      unsigned decimal (List.mem_append_left _ member)
    obtain ⟨finiteRight, rfl⟩ := ihSecond roundedRight fun decimal member =>
      unsigned decimal (List.mem_append_right _ member)
    exact operator.apply_exact finiteLeft finiteRight divisor representable

/-- A source whose decimals and parts all have the values of finite numbers is evaluated to its
exact value, and it computes to the text of that value: for an integer its decimal notation, in
which zero has no sign. -/
theorem compute_exact (source : String) (e : Expr) (value : Rat) (formed : tree source = .ok e)
    (denotes : e.Denotes (decimals source) value) :
    (∃ x, evaluate source = .ok x ∧ x.isFinite = true ∧ x.toRat = value) ∧
      (∀ x : Binary64, x.isFinite = true → x.toRat = value → compute source = .ok x.text) ∧
      ∀ whole : Int, value = whole → compute source = .ok (toString whole) := by
  obtain ⟨finite, exact⟩ := denotes.value_exact (numbers_of_tree formed) fun _ => decimals_nonneg
  have evaluated := evaluate_of_tree formed
  have computed := text_of_evaluated evaluated
  refine ⟨⟨e.value, evaluated, finite, exact⟩, fun x finiteX same => ?_, fun whole integral => ?_⟩
  · rw [computed, text_eq_of_toRat_eq finite finiteX (exact.trans same.symm)]
  · rw [computed, text_of_toRat_eq_intCast finite (exact.trans integral)]

/-- Three quarters go three times into two and a quarter, and nothing times a negative number is the
negative zero, which is written as zero. -/
theorem compute_exact_negative_zero :
    let quotient : Expr := .binary .divide (.number ⟨false, 0x4002000000000000, by decide⟩)
      (.number ⟨false, 0x3FE8000000000000, by decide⟩)
    let e : Expr := .binary .multiply
      (.binary .subtract quotient (.number ⟨false, 0x4008000000000000, by decide⟩))
      (.negate (.number ⟨false, 0x4020000000000000, by decide⟩))
    tree "(2.25/.75-3)*-8" = .ok e ∧ decimals "(2.25/.75-3)*-8" = [9 / 4, 3 / 4, 3, 8] ∧
      e.Denotes [9 / 4, 3 / 4, 3, 8] 0 ∧ e.value = zero true ∧
      compute "(2.25/.75-3)*-8" = .ok "0" := by
  intro quotient e
  have formed : tree "(2.25/.75-3)*-8" = .ok e := by decide +kernel
  have written : decimals "(2.25/.75-3)*-8" = [9 / 4, 3 / 4, 3, 8] := by decide +kernel
  have three : quotient.Denotes [9 / 4, 3 / 4] (9 / 4 / (3 / 4)) :=
    .binary .divide (.number _ (by decide +kernel)) (.number _ (by decide +kernel))
      (fun _ => by decide +kernel) (by decide +kernel)
  have nothing := Expr.Denotes.binary .subtract three
    (.number ⟨false, 0x4008000000000000, by decide⟩ (show Representable 3 by decide +kernel)) nofun
    (by decide +kernel)
  have negated := Expr.Denotes.negate
    (.number ⟨false, 0x4020000000000000, by decide⟩ (show Representable 8 by decide +kernel))
  have product := Expr.Denotes.binary .multiply nothing negated nofun (by decide +kernel)
  have value : Operator.multiply.exact (Operator.subtract.exact (9 / 4 / (3 / 4)) 3) (-8) = 0 := by
    decide +kernel
  have denotes : e.Denotes [9 / 4, 3 / 4, 3, 8] 0 := value ▸ product
  have computed := (compute_exact _ e 0 formed (written ▸ denotes)).2.2 0 rfl
  exact ⟨formed, written, denotes, by decide +kernel, computed⟩

end Calculator
