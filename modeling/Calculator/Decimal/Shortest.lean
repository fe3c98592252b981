import Calculator.Binary64.Rounding

/-!
The shortest decimal that reads back as a given magnitude.

A decimal counts tenths, hundredths and so on. It *reads back* as a magnitude when that magnitude
is the nearest one to it. For one place, two places and so on, the two decimals around the exact
value are tried; the first number of places at which one of them reads back is taken, with the
nearer of the two if both do, and the greater if they are equally near. A value that is no whole
number has no shorter decimal: fewer places would be fewer digits, and no whole number reads back
as it.

Main statements: what is found reads back (`readsBack_of_around?`), and so does the exact
decimal with the most places (`readsBack_exact`), so the search always succeeds.
-/
namespace Calculator

-- Powers of natural numbers are those of the core library, whatever else a module imports.
attribute [local instance (high)] instPowNat

/-- A number written with a fixed number of decimal places: `count` steps of the last place. -/
structure Decimal where
  count : Nat
  places : Nat
  deriving DecidableEq

namespace Decimal
open Binary64

def toRat (decimal : Decimal) : Rat := mkRat decimal.count (10 ^ decimal.places)

def magnitude (decimal : Decimal) : Nat :=
  nearestMagnitude (decimal.count * unitsPerOne) (10 ^ decimal.places)

def readsBack (decimal : Decimal) (magnitude : Nat) : Bool := decimal.magnitude == magnitude

/-- The greatest decimal with this many places that is not above a magnitude's value. -/
def floor (magnitude places : Nat) : Decimal :=
  ⟨units magnitude * 10 ^ places / unitsPerOne, places⟩

/-- The decimal one step of the last place above. -/
def next (decimal : Decimal) : Decimal := ⟨decimal.count + 1, decimal.places⟩

/-- Whether a magnitude's value lies in the lower half of the step that begins at its floor. -/
def floorIsNearer (magnitude places : Nat) : Bool :=
  2 * (units magnitude * 10 ^ places % unitsPerOne) < unitsPerOne

/-- The decimal that reads back among the two with this many places around a magnitude's value: the
nearer if both do, the greater of two that are equally near. -/
def around? (magnitude places : Nat) : Option Decimal :=
  let lower := floor magnitude places
  let upper := lower.next
  if lower.readsBack magnitude then
    if upper.readsBack magnitude && !floorIsNearer magnitude places then some upper else some lower
  else if upper.readsBack magnitude then some upper
  else none

/-- The value of a magnitude itself: each halving of the number one takes one more place. -/
def exact (magnitude : Nat) : Decimal :=
  ⟨units magnitude * 10 ^ unitExponent / unitsPerOne, unitExponent⟩

/-- The decimal with the fewest places, at least one, that reads back as a magnitude. -/
def shortest (magnitude : Nat) : Decimal :=
  ((List.range' 1 unitExponent).findSome? (around? magnitude)).getD (exact magnitude)

theorem readsBack_iff (decimal : Decimal) (magnitude : Nat) :
    decimal.readsBack magnitude = true ↔ decimal.magnitude = magnitude := by
  simp [readsBack]

@[simp]
theorem places_floor (magnitude places : Nat) : (floor magnitude places).places = places := rfl

@[simp]
theorem places_next (decimal : Decimal) : decimal.next.places = decimal.places := rfl

theorem readsBack_of_around? {magnitude places : Nat} {decimal : Decimal}
    (found : around? magnitude places = some decimal) :
    decimal.readsBack magnitude = true ∧ decimal.places = places := by
  simp only [around?] at found
  split at found
  next back =>
    split at found
    next above =>
      rw [← Option.some.inj found]
      exact ⟨(Bool.and_eq_true _ _ ▸ above).1, rfl⟩
    · rw [← Option.some.inj found]
      exact ⟨back, rfl⟩
  · split at found
    next above =>
      rw [← Option.some.inj found]
      exact ⟨above, rfl⟩
    · cases found

theorem readsBack_exact (magnitude : Nat) (finite : magnitude ≤ infinityMagnitude) :
    (exact magnitude).readsBack magnitude = true := by
  have powers : (10 : Nat) ^ unitExponent = 5 ^ unitExponent * unitsPerOne := by
    rw [unitsPerOne, ← Nat.mul_pow]
  have cancelled := nearestMagnitude_mul (10 ^ unitExponent) (units magnitude) 1
    (Nat.pow_pos (by decide))
  rw [Nat.mul_one, nearestMagnitude_units magnitude finite] at cancelled
  rw [readsBack_iff, Decimal.magnitude, exact]
  simp only
  have whole : units magnitude * 10 ^ unitExponent / unitsPerOne * unitsPerOne =
      10 ^ unitExponent * units magnitude := by
    rw [powers, ← Nat.mul_assoc, Nat.mul_div_cancel _ unitsPerOne_pos, Nat.mul_comm]
    rw [Nat.mul_right_comm, Nat.mul_comm (units magnitude)]
    exact Nat.mul_comm _ _
  rw [whole, cancelled]

end Decimal
end Calculator
