import Calculator.Binary64.Rounding

/-!
Arithmetic on binary64 numbers: every operation gives the exact result, rounded once.

Finite operands are worked out in `Rat` and rounded to nearest; the remaining cases are the ones
where an operand is not finite or a divisor is zero, and those where an exact result of zero needs
a sign. A sum has the sign of its exact value, and a sum of zero is negative only if both operands
are; products and quotients are negative when the operands' signs differ.
-/
namespace Calculator.Binary64

/-- The same magnitude under the other sign. -/
def neg (x : Binary64) : Binary64 := { x with negative := !x.negative }

def add (x y : Binary64) : Binary64 :=
  if x.isNaN || y.isNaN then notANumber
  else if x.isInfinite then
    if y.isInfinite && x.negative != y.negative then notANumber else x
  else if y.isInfinite then y
  else
    let sum := x.toRat + y.toRat
    nearest (if sum = 0 then x.negative && y.negative else sum < 0) sum

def sub (x y : Binary64) : Binary64 := add x y.neg

def mul (x y : Binary64) : Binary64 :=
  let negative := x.negative != y.negative
  if x.isNaN || y.isNaN then notANumber
  else if x.isInfinite || y.isInfinite then
    if x.isZero || y.isZero then notANumber else infinity negative
  else nearest negative (x.toRat * y.toRat)

def div (x y : Binary64) : Binary64 :=
  let negative := x.negative != y.negative
  if x.isNaN || y.isNaN then notANumber
  else if x.isInfinite then
    if y.isInfinite then notANumber else infinity negative
  else if y.isInfinite then zero negative
  else if y.isZero then
    if x.isZero then notANumber else infinity negative
  else nearest negative (x.toRat / y.toRat)

@[simp]
protected theorem neg_neg (x : Binary64) : x.neg.neg = x := by
  simp [neg]

@[simp]
theorem negative_neg (x : Binary64) : x.neg.negative = !x.negative := rfl

@[simp]
theorem magnitude_neg (x : Binary64) : x.neg.magnitude = x.magnitude := rfl

@[simp]
theorem isNaN_neg (x : Binary64) : x.neg.isNaN = x.isNaN := rfl

@[simp]
theorem isInfinite_neg (x : Binary64) : x.neg.isInfinite = x.isInfinite := rfl

theorem toRat_neg (x : Binary64) : x.neg.toRat = -x.toRat := by
  obtain ⟨negative, magnitude, bound⟩ := x
  cases negative <;> simp [toRat, neg]

end Calculator.Binary64
