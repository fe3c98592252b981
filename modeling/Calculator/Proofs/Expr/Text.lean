import Calculator.Expr.Text
import Calculator.Proofs.Binary64.Text
import Calculator.Proofs.Expr.Numbers

/-!
What the written form of a tree tells about the tree.

A number is written without a space and without a parenthesis, so its text ends where one of these
follows, and an operation tells by its parenthesis that it is none. Read from the left, a text has
therefore one tree at most, up to numbers that are written alike: a minus with one operand is a
negation, and with two of them a subtraction, because the first operand is followed by another
character.

Main statement: trees without a leaf that is not a number are equal exactly if they are written
alike (`text_eq_iff_numEq`).
-/
namespace Calculator

namespace Expr

/-- The same shape with related numbers at the leaves. -/
inductive Leafwise (related : Binary64 → Binary64 → Prop) : Expr → Expr → Prop
  | number {x y : Binary64} (leaf : related x y) : Leafwise related (.number x) (.number y)
  | negate {a b : Expr} (operand : Leafwise related a b) : Leafwise related (.negate a) (.negate b)
  | binary {a b c d : Expr} (operator : Operator) (left : Leafwise related a c)
      (right : Leafwise related b d) :
      Leafwise related (.binary operator a b) (.binary operator c d)

theorem Leafwise.mono {related other : Binary64 → Binary64 → Prop} {a b : Expr}
    (leafwise : Leafwise related a b)
    (implies : ∀ x ∈ a.numbers, ∀ y ∈ b.numbers, related x y → other x y) :
    Leafwise other a b := by
  induction leafwise with
  | number leaf => exact .number (implies _ List.mem_cons_self _ List.mem_cons_self leaf)
  | negate operand ih => exact .negate (ih implies)
  | binary operator left right ihLeft ihRight =>
    refine .binary operator (ihLeft fun x inX y inY => ?_) (ihRight fun x inX y inY => ?_)
    · exact implies x (List.mem_append_left _ inX) y (List.mem_append_left _ inY)
    · exact implies x (List.mem_append_right _ inX) y (List.mem_append_right _ inY)

theorem Leafwise.height_eq {related : Binary64 → Binary64 → Prop} {a b : Expr}
    (leafwise : Leafwise related a b) : a.height = b.height := by
  induction leafwise with
  | number leaf => rfl
  | negate operand ih => simp [height, ih]
  | binary operator left right ihLeft ihRight => simp [height, ihLeft, ihRight]

theorem numEq_iff_leafwise (a b : Expr) :
    a.numEq b = true ↔ Leafwise (fun x y => x.numEq y = true) a b := by
  constructor
  · intro equal
    fun_induction numEq a b with
    | case1 x y => exact .number equal
    | case2 a b ih => exact .negate (ih equal)
    | case3 operator a b other c d ihLeft ihRight =>
      simp only [Bool.and_eq_true, beq_iff_eq] at equal
      obtain ⟨⟨rfl, left⟩, right⟩ := equal
      exact .binary operator (ihLeft left) (ihRight right)
    | case4 => cases equal
  · intro leafwise
    induction leafwise with
    | number leaf => exact leaf
    | negate operand ih => exact ih
    | binary operator left right ihLeft ihRight => simp [numEq, ihLeft, ihRight]

/-- Numbers that are written alike. -/
abbrev Alike (x y : Binary64) : Prop := x.text = y.text

section Written

theorem toList_text_negate (operand : Expr) : operand.negate.text.toList =
    '(' :: (Operator.subtract.symbol.toList ++ ' ' :: (operand.text.toList ++ [')'])) := by
  simp [text, Operator.symbol]

theorem toList_text_binary (operator : Operator) (left right : Expr) :
    (binary operator left right).text.toList = '(' :: (operator.symbol.toList ++
      ' ' :: (left.text.toList ++ ' ' :: (right.text.toList ++ [')']))) := by
  simp [text]

/-- A text that can stand behind an operand: it is empty, or it begins with one of the two
characters that come after operands. -/
def EndsOperand (after : List Char) : Prop := ∀ c ∈ after.head?, c = ' ' ∨ c = ')'

theorem endsOperand_space (after : List Char) : EndsOperand (' ' :: after) := by
  simp [EndsOperand]

theorem endsOperand_close (after : List Char) : EndsOperand (')' :: after) := by
  simp [EndsOperand]

theorem takeWhile_text (x : Binary64) {after : List Char} (ends : EndsOperand after) :
    (x.text.toList ++ after).takeWhile Binary64.textChars.contains = x.text.toList := by
  have all : ∀ c ∈ x.text.toList, Binary64.textChars.contains c = true := fun c member =>
    List.contains_iff_mem.mpr (x.mem_text member)
  have nothing : after.takeWhile Binary64.textChars.contains = [] := by
    cases after with
    | nil => rfl
    | cons c after => rcases ends c rfl with rfl | rfl <;> rfl
  rw [List.takeWhile_append_of_pos all, nothing, List.append_nil]

theorem number_ne_parenthesis (x : Binary64) (after more : List Char) :
    x.text.toList ++ after ≠ '(' :: more := by
  obtain ⟨first, others, text⟩ := List.exists_cons_of_ne_nil x.text_toList_ne_nil
  rw [text]
  intro same
  have listed : first ∈ Binary64.textChars := x.mem_text (by simp [text])
  rw [(List.cons.inj same).1] at listed
  revert listed
  decide

theorem symbol_append_inj {operator other : Operator} {after more : List Char}
    (same : '(' :: (operator.symbol.toList ++ ' ' :: after) =
      '(' :: (other.symbol.toList ++ ' ' :: more)) : operator = other ∧ after = more := by
  have single (operator : Operator) : operator.symbol.toList.length = 1 := by
    cases operator <;> rfl
  obtain ⟨symbols, rest⟩ :=
    List.append_inj (List.cons.inj same).2 ((single operator).trans (single other).symm)
  exact ⟨Operator.symbol_inj (String.toList_inj.mp symbols), (List.cons.inj rest).2⟩

/-- Where a tree is written in front of something else, both can be told from the whole. -/
theorem text_append_inj {a b : Expr} {after more : List Char} (ends : EndsOperand after)
    (endsToo : EndsOperand more) (same : a.text.toList ++ after = b.text.toList ++ more) :
    Leafwise Alike a b ∧ after = more := by
  induction a generalizing b after more with
  | number x =>
    cases b with
    | number y =>
      have texts : x.text.toList = y.text.toList := by
        rw [← takeWhile_text x ends, ← takeWhile_text y endsToo]
        exact congrArg _ same
      exact ⟨.number (String.toList_inj.mp texts), List.append_cancel_left (texts ▸ same)⟩
    | negate b =>
      rw [toList_text_negate] at same
      exact absurd same (number_ne_parenthesis x _ _)
    | binary other c d =>
      rw [toList_text_binary] at same
      exact absurd same (number_ne_parenthesis x _ _)
  | negate a ih =>
    rw [toList_text_negate] at same
    cases b with
    | number y => exact absurd same.symm (number_ne_parenthesis y _ _)
    | negate b =>
      rw [toList_text_negate] at same
      simp only [List.cons_append, List.append_assoc] at same
      obtain ⟨operands, behind⟩ := ih (endsOperand_close _) (endsOperand_close _)
        (symbol_append_inj same).2
      exact ⟨.negate operands, (List.cons.inj behind).2⟩
    | binary other c d =>
      rw [toList_text_binary] at same
      simp only [List.cons_append, List.append_assoc] at same
      -- Behind the first operand there is a parenthesis on one side and a space on the other.
      obtain ⟨_, behind⟩ := ih (endsOperand_close _) (endsOperand_space _)
        (symbol_append_inj same).2
      cases behind
  | binary operator a c ihLeft ihRight =>
    rw [toList_text_binary] at same
    cases b with
    | number y => exact absurd same.symm (number_ne_parenthesis y _ _)
    | negate b =>
      rw [toList_text_negate] at same
      simp only [List.cons_append, List.append_assoc] at same
      obtain ⟨_, behind⟩ := ihLeft (endsOperand_space _) (endsOperand_close _)
        (symbol_append_inj same).2
      cases behind
    | binary other b d =>
      rw [toList_text_binary] at same
      simp only [List.cons_append, List.append_assoc] at same
      obtain ⟨rfl, operands⟩ := symbol_append_inj same
      obtain ⟨left, behind⟩ := ihLeft (endsOperand_space _) (endsOperand_space _) operands
      obtain ⟨right, behind⟩ := ihRight (endsOperand_close _) (endsOperand_close _)
        (List.cons.inj behind).2
      exact ⟨.binary operator left right, (List.cons.inj behind).2⟩

end Written

/-- Trees are written alike exactly if they have the same shape and numbers that are. -/
theorem leafwise_iff_text_eq (a b : Expr) : Leafwise Alike a b ↔ a.text = b.text := by
  constructor
  · intro leafwise
    induction leafwise with
    | number leaf => exact leaf
    | negate operand ih => simp [text, ih]
    | binary operator left right ihLeft ihRight => simp [text, ihLeft, ihRight]
  · intro same
    have nothing : EndsOperand [] := nofun
    exact (text_append_inj nothing nothing (by simp [same])).1

/-- No leaf is something that is not a number. -/
def NaNFree (e : Expr) : Prop := ∀ x ∈ e.numbers, x.isNaN = false

theorem numEq_iff_of_naNFree {a b : Expr} (freeA : a.NaNFree) (freeB : b.NaNFree) :
    a.numEq b = true ↔ a.text = b.text := by
  rw [numEq_iff_leafwise, ← leafwise_iff_text_eq]
  have leaves {x y : Binary64} (inA : x ∈ a.numbers) (inB : y ∈ b.numbers) :
      x.numEq y = true ↔ Alike x y := Binary64.numEq_iff_text_eq (freeA x inA) (freeB y inB)
  constructor
  · exact fun equal => equal.mono fun x inA y inB => (leaves inA inB).mp
  · exact fun alike => alike.mono fun x inA y inB => (leaves inA inB).mpr

theorem numEq_self_iff (e : Expr) : e.numEq e = true ↔ e.NaNFree := by
  induction e with
  | number x => simp [numEq, NaNFree, numbers, Binary64.numEq_self_iff]
  | negate operand ih => exact ih
  | binary operator left right ihLeft ihRight =>
    simp only [numEq, NaNFree, numbers, beq_self_eq_true, Bool.true_and, Bool.and_eq_true, ihLeft,
      ihRight, List.forall_mem_append]

/-- Grouping to the left and to the right are different shapes. -/
theorem text_ne_of_regrouped (inner outer : Operator) (first second third : Expr) :
    (binary outer (binary inner first second) third).text ≠
      (binary inner first (binary outer second third)).text := by
  intro same
  cases (leafwise_iff_text_eq _ _).mpr same with
  | binary operator left right =>
    have heights := left.height_eq
    simp only [height] at heights
    omega

theorem text_eq_of_zeros {a b : Expr}
    (leaves : Leafwise (fun x y => x = y ∨ x.isZero = true ∧ y.isZero = true) a b) :
    a.text = b.text := by
  refine (leafwise_iff_text_eq a b).mp (leaves.mono fun x _ y _ related => ?_)
  rcases related with rfl | ⟨zeroX, zeroY⟩
  · rfl
  · exact (Binary64.text_of_isZero zeroX).trans (Binary64.text_of_isZero zeroY).symm

/-- Trees without a leaf that is not a number are equal exactly if they are written alike, and a
tree with such a leaf differs from itself. So a negation is not written like a subtraction or like
a number, and no grouping like another one, but the sign of a zero does not show. -/
theorem text_eq_iff_numEq (e other : Expr) :
    (e.NaNFree → other.NaNFree → (e.numEq other = true ↔ e.text = other.text)) ∧
    (e.numEq e = true ↔ e.NaNFree) ∧
    (∀ left right, e.negate.text ≠ (binary .subtract left right).text) ∧
    (∀ x, e.negate.text ≠ (number x).text) ∧
    (∀ inner outer last, (binary outer (binary inner e other) last).text ≠
      (binary inner e (binary outer other last)).text) ∧
    (Leafwise (fun x y => x = y ∨ x.isZero = true ∧ y.isZero = true) e other →
      e.text = other.text ∧ (e.NaNFree → other.NaNFree → e.numEq other = true)) := by
  refine ⟨numEq_iff_of_naNFree, numEq_self_iff e, fun left right same => ?_, fun x same => ?_,
    fun inner outer last => text_ne_of_regrouped inner outer e other last, fun zeros => ?_⟩
  · cases (leafwise_iff_text_eq _ _).mpr same
  · cases (leafwise_iff_text_eq _ _).mpr same
  · have same := text_eq_of_zeros zeros
    exact ⟨same, fun free freeOther => (numEq_iff_of_naNFree free freeOther).mpr same⟩

/-- Two zeros under a minus sign that is an operator, next to a minus sign that is a number's. -/
theorem text_eq_iff_numEq_zeros :
    let e : Expr := binary .subtract (number (.zero true)) (number (.infinity true))
    let other : Expr := binary .subtract (number (.zero false)) (number (.infinity true))
    e ≠ other ∧ e.NaNFree ∧ other.NaNFree ∧ e.numEq other = true ∧ e.text = other.text ∧
      other.text = "(- 0 -inf)" := by
  intro e other
  have free : e.NaNFree := by unfold NaNFree; decide
  have freeOther : other.NaNFree := by unfold NaNFree; decide
  have equal : e.numEq other = true := by decide
  have same := ((text_eq_iff_numEq e other).1 free freeOther).mp equal
  exact ⟨by decide, free, freeOther, equal, same, by decide +kernel⟩

end Expr
end Calculator
