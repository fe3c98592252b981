import Calculator.Expr.Value
import Calculator.Proofs.Binary64.Rounds

/-!
What an operator has to give at any two operands, and a tree at its leaves.

The rules are those of the format's arithmetic. A result between finite operands is the exact one,
correctly rounded, and if it is zero its sign has a rule of its own. A divisor of zero and operands
that are not finite have the remaining rules. Which pattern stands for a result that is not a number
is left open, so two such results agree.

No rule mentions how an operation is worked out. Still, at every two operands one of them applies,
and all that apply agree.

Main statements: an operator gives the rules' result and no other (`Operator.gives_iff`), and a tree
has the value that the rules lead to from its leaves (`Expr.value_rounded`).
-/
namespace Calculator

namespace Binary64

/-- The same number, or two values that are not numbers. -/
def Agrees (x y : Binary64) : Prop := x = y ∨ x.isNaN = true ∧ y.isNaN = true

variable {x y : Binary64}

theorem Agrees.symm (agrees : x.Agrees y) : y.Agrees x := by
  rcases agrees with rfl | ⟨none, noneOther⟩
  · exact Or.inl rfl
  · exact Or.inr ⟨noneOther, none⟩

theorem Agrees.trans {z : Binary64} (first : x.Agrees y) (second : y.Agrees z) : x.Agrees z := by
  rcases first with rfl | ⟨noneFirst, noneMiddle⟩
  · exact second
  · rcases second with rfl | ⟨-, noneLast⟩
    · exact Or.inr ⟨noneFirst, noneMiddle⟩
    · exact Or.inr ⟨noneFirst, noneLast⟩

theorem Agrees.neg (agrees : x.Agrees y) : x.neg.Agrees y.neg := by
  rcases agrees with rfl | none
  · exact Or.inl rfl
  · exact Or.inr none

theorem nearest_zero (negative : Bool) : nearest negative 0 = zero negative :=
  eq_of_magnitude_eq rfl (magnitude_nearest_zero negative)

@[simp]
theorem isNaN_notANumber : notANumber.isNaN = true := by
  decide

@[simp]
theorem isNaN_zero (negative : Bool) : (zero negative).isNaN = false := by
  cases negative <;> decide

@[simp]
theorem isNaN_infinity (negative : Bool) : (infinity negative).isNaN = false := by
  cases negative <;> decide

theorem eq_infinity_of_isInfinite (infinite : x.isInfinite = true) : x = infinity x.negative :=
  eq_of_magnitude_eq rfl ((isInfinite_iff x).mp infinite)

theorem add_of_isInfinite (left : x.isInfinite = true) (right : y.isNaN = false)
    (same : y.isInfinite = true → x.negative = y.negative) : x.add y = infinity x.negative := by
  have compatible : ¬(y.isInfinite && x.negative != y.negative) = true := by
    simpa using same
  rw [add, (regular_of_isInfinite left).1, right, Bool.or_self, if_neg Bool.false_ne_true,
    if_pos left, if_neg compatible]
  exact eq_infinity_of_isInfinite left

theorem add_of_isFinite_of_isInfinite (left : x.isFinite = true) (right : y.isInfinite = true) :
    x.add y = infinity y.negative := by
  obtain ⟨number, bounded⟩ := regular_of_isFinite left
  rw [add, number, (regular_of_isInfinite right).1, bounded, Bool.or_self,
    if_neg Bool.false_ne_true, if_neg Bool.false_ne_true, if_pos right]
  exact eq_infinity_of_isInfinite right

theorem isNaN_add_of_opposite (left : x.isInfinite = true) (right : y.isInfinite = true)
    (differ : x.negative ≠ y.negative) : (x.add y).isNaN = true := by
  simp [add, left, right, regular_of_isInfinite left, regular_of_isInfinite right, differ]

/-- Among finite numbers, value and sign make a zero. -/
theorem eq_zero_iff (finite : x.isFinite = true) (negative : Bool) :
    x = zero negative ↔ x.toRat = 0 ∧ x.negative = negative := by
  rw [← isZero_iff_toRat finite, isZero_iff]
  constructor
  · rintro rfl
    exact ⟨rfl, rfl⟩
  · rintro ⟨size, sign⟩
    exact eq_of_magnitude_eq sign size

end Binary64

namespace Operator

open Binary64

/-- The results that an operator may have at a left and a right operand. -/
inductive Gives : Operator → Binary64 → Binary64 → Binary64 → Prop
  | notNumber {operator x y z} (operand : x.isNaN = true ∨ y.isNaN = true)
      (result : z.isNaN = true) : Gives operator x y z
  -- Between finite operands.
  | rounded {operator x y z} (left : x.isFinite = true) (right : y.isFinite = true)
      (divisor : operator = divide → y.isZero = false)
      (nonzero : operator.exact x.toRat y.toRat ≠ 0)
      (result : z.Rounds (operator.exact x.toRat y.toRat)) : Gives operator x y z
  | zeroSum {x y} (left : x.isFinite = true) (right : y.isFinite = true)
      (vanishes : x.toRat + y.toRat = 0) :
      Gives add x y (zero (x = zero true ∧ y = zero true))
  | zeroDifference {x y} (left : x.isFinite = true) (right : y.isFinite = true)
      (vanishes : x.toRat - y.toRat = 0) :
      Gives subtract x y (zero (x = zero true ∧ y = zero false))
  | zeroProduct {x y} (left : x.isFinite = true) (right : y.isFinite = true)
      (vanishes : x.toRat * y.toRat = 0) :
      Gives multiply x y (zero (x.negative != y.negative))
  | zeroQuotient {x y} (left : x.isFinite = true) (right : y.isFinite = true)
      (divisor : y.isZero = false) (vanishes : x.toRat / y.toRat = 0) :
      Gives divide x y (zero (x.negative != y.negative))
  | byZero {x y} (dividend : x.isFinite = true) (nonzero : x.isZero = false)
      (divisor : y.isZero = true) :
      Gives divide x y (infinity (x.negative != y.negative))
  | zeroByZero {x y z} (dividend : x.isZero = true) (divisor : y.isZero = true)
      (result : z.isNaN = true) : Gives divide x y z
  -- Sums and differences with an infinity.
  | infinityAdd {x y} (left : x.isInfinite = true) (right : y.isNaN = false)
      (same : y.isInfinite = true → x.negative = y.negative) :
      Gives add x y (infinity x.negative)
  | addInfinity {x y} (left : x.isFinite = true) (right : y.isInfinite = true) :
      Gives add x y (infinity y.negative)
  | addOpposite {x y z} (left : x.isInfinite = true) (right : y.isInfinite = true)
      (differ : x.negative ≠ y.negative) (result : z.isNaN = true) : Gives add x y z
  | infinitySubtract {x y} (left : x.isInfinite = true) (right : y.isNaN = false)
      (differ : y.isInfinite = true → x.negative ≠ y.negative) :
      Gives subtract x y (infinity x.negative)
  | subtractInfinity {x y} (left : x.isFinite = true) (right : y.isInfinite = true) :
      Gives subtract x y (infinity !y.negative)
  | subtractEqual {x y z} (left : x.isInfinite = true) (right : y.isInfinite = true)
      (same : x.negative = y.negative) (result : z.isNaN = true) : Gives subtract x y z
  -- Products and quotients with an infinity.
  | infiniteProduct {x y} (left : x.isNaN = false) (right : y.isNaN = false)
      (nonzero : x.isZero = false ∧ y.isZero = false)
      (infinite : x.isInfinite = true ∨ y.isInfinite = true) :
      Gives multiply x y (infinity (x.negative != y.negative))
  | zeroTimesInfinity {x y z}
      (factors : x.isZero = true ∧ y.isInfinite = true ∨ x.isInfinite = true ∧ y.isZero = true)
      (result : z.isNaN = true) : Gives multiply x y z
  | infiniteDividend {x y} (dividend : x.isInfinite = true) (divisor : y.isFinite = true) :
      Gives divide x y (infinity (x.negative != y.negative))
  | infiniteDivisor {x y} (dividend : x.isFinite = true) (divisor : y.isInfinite = true) :
      Gives divide x y (zero (x.negative != y.negative))
  | infinityByInfinity {x y z} (dividend : x.isInfinite = true) (divisor : y.isInfinite = true)
      (result : z.isNaN = true) : Gives divide x y z

variable {x y z : Binary64} {operator : Operator}

/-- An operand that is not a number makes the result none. -/
theorem isNaN_apply (operator : Operator) (operand : x.isNaN = true ∨ y.isNaN = true) :
    (operator.apply x y).isNaN = true := by
  have either : (x.isNaN || y.isNaN) = true := by
    rwa [Bool.or_eq_true]
  cases operator <;>
    simp only [apply, Binary64.add, Binary64.sub, Binary64.mul, Binary64.div, isNaN_neg, either,
      if_true] <;>
    exact isNaN_notANumber

/-- Between finite operands an exact result of zero is given with the sign that zeros have. -/
theorem apply_of_zero (operator : Operator) (left : x.isFinite = true) (right : y.isFinite = true)
    (divisor : operator = .divide → y.isZero = false)
    (vanishes : operator.exact x.toRat y.toRat = 0) :
    operator.apply x y = zero (operator.zeroSign x y) := by
  rw [operator.apply_of_isFinite left right divisor, resultSign, if_pos vanishes, vanishes,
    nearest_zero]

/-- Two values that are not above zero add up to zero only if both are zero. -/
theorem negative_and_negative_eq (left : x.isFinite = true) (right : y.isFinite = true)
    (vanishes : x.toRat + y.toRat = 0) :
    (x.negative && y.negative) = decide (x = zero true ∧ y = zero true) := by
  rw [Bool.eq_iff_iff, decide_eq_true_iff, eq_zero_iff left, eq_zero_iff right, Bool.and_eq_true]
  constructor
  · rintro ⟨signX, signY⟩
    have belowX := toRat_nonpos signX
    have belowY := toRat_nonpos signY
    exact ⟨⟨by linarith, signX⟩, by linarith, signY⟩
  · rintro ⟨⟨-, signX⟩, -, signY⟩
    exact ⟨signX, signY⟩

theorem zeroSign_add (left : x.isFinite = true) (right : y.isFinite = true)
    (vanishes : x.toRat + y.toRat = 0) :
    add.zeroSign x y = decide (x = zero true ∧ y = zero true) :=
  negative_and_negative_eq left right vanishes

theorem zeroSign_subtract (left : x.isFinite = true) (right : y.isFinite = true)
    (vanishes : x.toRat - y.toRat = 0) :
    subtract.zeroSign x y = decide (x = zero true ∧ y = zero false) := by
  have flipped : y.neg = zero true ↔ y = zero false :=
    ⟨fun same => by rw [← y.neg_neg, same]; rfl, fun same => by rw [same]; rfl⟩
  rw [sub_eq_add_neg, ← toRat_neg] at vanishes
  have zeros := negative_and_negative_eq (y := y.neg) left right vanishes
  simp only [flipped] at zeros
  exact zeros

theorem rounds_apply (operator : Operator) (left : x.isFinite = true) (right : y.isFinite = true)
    (divisor : operator = .divide → y.isZero = false) :
    (operator.apply x y).Rounds (operator.exact x.toRat y.toRat) := by
  rw [operator.apply_of_isFinite left right divisor]
  exact rounds_nearest operator.resultSign_of_neg operator.resultSign_of_pos

/-- The result of a rule is the operator's, but for the pattern of one that is not a number. -/
theorem Gives.agrees (gives : operator.Gives x y z) : z.Agrees (operator.apply x y) := by
  -- The operator asks for the kinds of its operands in turn, and a rule knows them.
  cases gives with
  | notNumber operand result => exact Or.inr ⟨result, isNaN_apply operator operand⟩
  | rounded left right divisor nonzero result =>
    exact Or.inl (result.unique nonzero (operator.rounds_apply left right divisor))
  | zeroSum left right vanishes =>
    rw [← zeroSign_add left right vanishes]
    exact Or.inl (add.apply_of_zero left right nofun vanishes).symm
  | zeroDifference left right vanishes =>
    rw [← zeroSign_subtract left right vanishes]
    exact Or.inl (subtract.apply_of_zero left right nofun vanishes).symm
  | zeroProduct left right vanishes =>
    exact Or.inl (multiply.apply_of_zero left right nofun vanishes).symm
  | zeroQuotient left right divisor vanishes =>
    exact Or.inl (divide.apply_of_zero left right (fun _ => divisor) vanishes).symm
  | byZero dividend nonzero divisor =>
    left
    simp [apply, Binary64.div, regular_of_isFinite dividend, regular_of_isZero divisor, nonzero,
      divisor]
  | zeroByZero dividend divisor result =>
    right
    simp [apply, Binary64.div, regular_of_isZero dividend, regular_of_isZero divisor, dividend,
      divisor, result]
  | infinityAdd left right same => exact Or.inl (add_of_isInfinite left right same).symm
  | addInfinity left right => exact Or.inl (add_of_isFinite_of_isInfinite left right).symm
  | addOpposite left right differ result =>
    exact Or.inr ⟨result, isNaN_add_of_opposite left right differ⟩
  | infinitySubtract left right differ =>
    exact Or.inl (add_of_isInfinite (y := y.neg) left right fun infinite =>
      Bool.eq_not_of_ne (differ infinite)).symm
  | subtractInfinity left right =>
    exact Or.inl (add_of_isFinite_of_isInfinite (y := y.neg) left right).symm
  | subtractEqual left right same result =>
    exact Or.inr ⟨result, isNaN_add_of_opposite (y := y.neg) left right (by simp [same])⟩
  | infiniteProduct left right nonzero infinite =>
    left
    simp [apply, Binary64.mul, left, right, nonzero, infinite]
  | zeroTimesInfinity factors result =>
    right
    rcases factors with ⟨left, right⟩ | ⟨left, right⟩
    · simp [apply, Binary64.mul, left, right, regular_of_isZero left, regular_of_isInfinite right,
        result]
    · simp [apply, Binary64.mul, left, right, regular_of_isZero right, regular_of_isInfinite left,
        result]
  | infiniteDividend dividend divisor =>
    left
    simp [apply, Binary64.div, dividend, regular_of_isInfinite dividend,
      regular_of_isFinite divisor]
  | infiniteDivisor dividend divisor =>
    left
    simp [apply, Binary64.div, divisor, regular_of_isInfinite divisor,
      regular_of_isFinite dividend]
  | infinityByInfinity dividend divisor result =>
    right
    simp [apply, Binary64.div, dividend, divisor, regular_of_isInfinite divisor,
      regular_of_isInfinite dividend, result]

/-- The rules leave open which pattern stands for a result that is not a number. -/
theorem Gives.of_agrees (gives : operator.Gives x y z) {other : Binary64}
    (agrees : other.Agrees z) : operator.Gives x y other := by
  rcases agrees with rfl | ⟨result, none⟩
  · exact gives
  · cases gives with
    | notNumber operand => exact .notNumber operand result
    | rounded left right divisor nonzero rounds =>
      rw [rounds.eq_nearest, isNaN_nearest] at none
      cases none
    | zeroByZero dividend divisor => exact .zeroByZero dividend divisor result
    | addOpposite left right differ => exact .addOpposite left right differ result
    | subtractEqual left right same => exact .subtractEqual left right same result
    | zeroTimesInfinity factors => exact .zeroTimesInfinity factors result
    | infinityByInfinity dividend divisor => exact .infinityByInfinity dividend divisor result
    | _ => simp at none

theorem exists_gives_of_isFinite (operator : Operator) (left : x.isFinite = true)
    (right : y.isFinite = true) (divisor : operator = .divide → y.isZero = false) :
    ∃ z, operator.Gives x y z := by
  by_cases vanishes : operator.exact x.toRat y.toRat = 0
  · cases operator with
    | add => exact ⟨_, .zeroSum left right vanishes⟩
    | subtract => exact ⟨_, .zeroDifference left right vanishes⟩
    | multiply => exact ⟨_, .zeroProduct left right vanishes⟩
    | divide => exact ⟨_, .zeroQuotient left right (divisor rfl) vanishes⟩
  · exact ⟨_, .rounded left right divisor vanishes (operator.rounds_apply left right divisor)⟩

/-- At every two operands a rule applies. -/
theorem exists_gives (operator : Operator) (x y : Binary64) : ∃ z, operator.Gives x y z := by
  by_cases operand : x.isNaN = true ∨ y.isNaN = true
  · exact ⟨notANumber, .notNumber operand isNaN_notANumber⟩
  rw [not_or, Bool.not_eq_true, Bool.not_eq_true] at operand
  obtain ⟨numberX, numberY⟩ := operand
  -- Between infinities the signs decide, and beside one infinity a factor of zero does.
  rcases (kind_cases x).resolve_left (by simp [numberX]) with infiniteX | finiteX <;>
    rcases (kind_cases y).resolve_left (by simp [numberY]) with infiniteY | finiteY
  · cases operator with
    | add =>
      by_cases same : x.negative = y.negative
      · exact ⟨_, .infinityAdd infiniteX numberY fun _ => same⟩
      · exact ⟨_, .addOpposite infiniteX infiniteY same isNaN_notANumber⟩
    | subtract =>
      by_cases same : x.negative = y.negative
      · exact ⟨_, .subtractEqual infiniteX infiniteY same isNaN_notANumber⟩
      · exact ⟨_, .infinitySubtract infiniteX numberY fun _ => same⟩
    | multiply =>
      exact ⟨_, .infiniteProduct numberX numberY
        ⟨(regular_of_isInfinite infiniteX).2, (regular_of_isInfinite infiniteY).2⟩
        (Or.inl infiniteX)⟩
    | divide => exact ⟨_, .infinityByInfinity infiniteX infiniteY isNaN_notANumber⟩
  · have bounded : y.isInfinite ≠ true := Bool.eq_false_iff.mp (regular_of_isFinite finiteY).2
    cases operator with
    | add => exact ⟨_, .infinityAdd infiniteX numberY fun infinite => absurd infinite bounded⟩
    | subtract =>
      exact ⟨_, .infinitySubtract infiniteX numberY fun infinite => absurd infinite bounded⟩
    | multiply =>
      cases zero : y.isZero with
      | true => exact ⟨_, .zeroTimesInfinity (Or.inr ⟨infiniteX, zero⟩) isNaN_notANumber⟩
      | false =>
        exact ⟨_, .infiniteProduct numberX numberY ⟨(regular_of_isInfinite infiniteX).2, zero⟩
          (Or.inl infiniteX)⟩
    | divide => exact ⟨_, .infiniteDividend infiniteX finiteY⟩
  · cases operator with
    | add => exact ⟨_, .addInfinity finiteX infiniteY⟩
    | subtract => exact ⟨_, .subtractInfinity finiteX infiniteY⟩
    | multiply =>
      cases zero : x.isZero with
      | true => exact ⟨_, .zeroTimesInfinity (Or.inl ⟨zero, infiniteY⟩) isNaN_notANumber⟩
      | false =>
        exact ⟨_, .infiniteProduct numberX numberY ⟨zero, (regular_of_isInfinite infiniteY).2⟩
          (Or.inr infiniteY)⟩
    | divide => exact ⟨_, .infiniteDivisor finiteX infiniteY⟩
  · -- Only a divisor of zero keeps two finite operands from an exact result.
    by_cases divisor : operator = .divide → y.isZero = false
    · exact operator.exists_gives_of_isFinite finiteX finiteY divisor
    · obtain ⟨rfl, zeroY⟩ : operator = .divide ∧ y.isZero = true := by simpa using divisor
      cases zeroX : x.isZero with
      | true => exact ⟨_, .zeroByZero zeroX zeroY isNaN_notANumber⟩
      | false => exact ⟨_, .byZero finiteX zeroX zeroY⟩

/-- The rules give the operator's result, and no other number. -/
theorem gives_iff : operator.Gives x y z ↔ z.Agrees (operator.apply x y) := by
  refine ⟨Gives.agrees, fun agrees => ?_⟩
  obtain ⟨result, gives⟩ := operator.exists_gives x y
  exact (gives.of_agrees gives.agrees.symm).of_agrees agrees

/-- Operands that agree have results that agree. -/
theorem agrees_apply {x' y' : Binary64} (left : x.Agrees x') (right : y.Agrees y') :
    (operator.apply x y).Agrees (operator.apply x' y') := by
  rcases left with rfl | ⟨none, noneOther⟩
  · rcases right with rfl | ⟨none, noneOther⟩
    · exact Or.inl rfl
    · exact Or.inr ⟨isNaN_apply operator (Or.inr none), isNaN_apply operator (Or.inr noneOther)⟩
  · exact Or.inr ⟨isNaN_apply operator (Or.inl none), isNaN_apply operator (Or.inl noneOther)⟩

end Operator

namespace Expr

/-- The values that a tree may have: its leaves are given, and every node follows the rules. -/
inductive Evaluates : Expr → Binary64 → Prop
  | number (x) : Evaluates (number x) x
  | negate {operand x} (value : Evaluates operand x) : Evaluates (negate operand) x.neg
  | binary {operator left right x y z} (first : Evaluates left x) (second : Evaluates right y)
      (result : operator.Gives x y z) : Evaluates (binary operator left right) z

theorem evaluates_value (e : Expr) : e.Evaluates e.value := by
  induction e with
  | number x => exact .number x
  | negate operand value => exact .negate value
  | binary operator left right first second =>
    exact .binary first second (Operator.gives_iff.mpr (Or.inl rfl))

theorem Evaluates.agrees {e : Expr} {z : Binary64} (evaluates : e.Evaluates z) :
    z.Agrees e.value := by
  induction evaluates with
  | number x => exact Or.inl rfl
  | negate _ operand => exact operand.neg
  | binary _ _ result first second =>
    exact (Operator.gives_iff.mp result).trans (Operator.agrees_apply first second)

/-- A tree's value is the one that the rules lead to from its leaves, and at a node it is what they
give at the values of the operands. But for the pattern of a value that is not a number, no other
value is. -/
theorem value_rounded (e : Expr) :
    (e.Evaluates e.value ∧ ∀ z, e.Evaluates z → z.Agrees e.value) ∧
      ∀ operator left right, e = binary operator left right →
        ∀ z, operator.Gives left.value right.value z ↔ z.Agrees e.value := by
  refine ⟨⟨e.evaluates_value, fun _ => Evaluates.agrees⟩, ?_⟩
  rintro operator left right rfl z
  exact Operator.gives_iff

end Expr
end Calculator
