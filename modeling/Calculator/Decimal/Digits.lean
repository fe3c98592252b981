/-!
The value of a row of digits.

A long row is read with few steps on large numbers: digits are gathered in a small number, and what
is gathered moves to the large one once in a while.

Main statement: the result is what the digits stand for in base ten (`digitsValue_eq`).
-/
namespace Calculator.Decimal

-- Powers of natural numbers are those of the core library, whatever else a module imports.
attribute [local instance (high)] instPowNat

/-- A number held in two parts: the high one counts multiples of the scale. -/
structure Gathered where
  high : Nat
  scale : Nat
  low : Nat

namespace Gathered

def value (held : Gathered) : Nat := held.high * held.scale + held.low

/-- Takes one more digit. The low part is moved to the high part when it has 18 digits. -/
def push (held : Gathered) (digit : Char) : Gathered :=
  let next := digit.toNat - '0'.toNat
  if held.scale < 10 ^ (18 : Nat) then ⟨held.high, held.scale * 10, held.low * 10 + next⟩
  else ⟨held.value, 10, next⟩

theorem value_push (held : Gathered) (digit : Char) :
    (held.push digit).value = 10 * held.value + (digit.toNat - '0'.toNat) := by
  by_cases room : held.scale < 10 ^ 18
  · simp only [push, room, if_true, value]
    rw [Nat.mul_add, Nat.mul_comm held.low, ← Nat.mul_assoc held.high, Nat.mul_comm _ 10,
      Nat.add_assoc]
  · simp only [push, room, if_false, value, Nat.mul_comm]

theorem value_foldl_push (held : Gathered) (digits : List Char) :
    (digits.foldl push held).value = Nat.ofDigitChars 10 digits held.value := by
  induction digits generalizing held with
  | nil => simp
  | cons digit digits ih => rw [List.foldl_cons, ih, value_push, Nat.ofDigitChars_cons]

end Gathered

def digitsValue (digits : List Char) : Nat := (digits.foldl Gathered.push ⟨0, 1, 0⟩).value

theorem digitsValue_eq (digits : List Char) :
    digitsValue digits = Nat.ofDigitChars 10 digits 0 := by
  rw [digitsValue, Gathered.value_foldl_push]
  rfl

end Calculator.Decimal
