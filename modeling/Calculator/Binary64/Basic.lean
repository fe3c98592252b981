/-!
Numbers in the IEEE 754 binary64 format, every bit pattern kept.

A number is a sign and a *magnitude*: the low 63 bits of its pattern, read as one natural number.
Magnitudes ascend with the values they stand for. One of them is the infinity's, and all greater
ones are not numbers. A finite magnitude stands for a whole number of *units*, a unit being the
least positive value, 2 to the power -1074, so every finite value is exact in `Nat` and in `Rat`.

Main statements: the patterns and the numbers are the same things (`ofBits_toBits`,
`toBits_ofBits`), and every number is exactly one of finite, infinite and not a number.
-/
namespace Calculator

-- Powers of natural numbers are those of the core library, whatever else a module imports.
attribute [local instance (high)] instPowNat

/-- A number in the binary64 format: a sign and the magnitude beneath it. -/
structure Binary64 where
  negative : Bool
  magnitude : Nat
  magnitude_lt : magnitude < 2 ^ (63 : Nat)
  deriving DecidableEq

namespace Binary64

/-- The magnitude of both infinities, above every finite one. -/
def infinityMagnitude : Nat := 2047 * 2 ^ (52 : Nat)

/-- The least positive value, the unit, is 2 to the power of minus this. -/
@[irreducible]
def unitExponent : Nat := 1074

/-- How many units make the number one. -/
def unitsPerOne : Nat := 2 ^ unitExponent

theorem unitExponent_eq : unitExponent = 1074 := by
  rw [unitExponent]

theorem unitsPerOne_pos : 0 < unitsPerOne := Nat.two_pow_pos _

/-- The binary exponent of the spacing around a magnitude, in units. -/
def spacing (magnitude : Nat) : Nat := magnitude / 2 ^ (52 : Nat) - 1

/-- The magnitude counted in steps of its own spacing: its 53 significant bits. -/
def significand (magnitude : Nat) : Nat := magnitude - spacing magnitude * 2 ^ (52 : Nat)

/-- The value of a finite magnitude in units. -/
def units (magnitude : Nat) : Nat := significand magnitude * 2 ^ spacing magnitude

def zero (negative : Bool) : Binary64 := ⟨negative, 0, by decide⟩

def infinity (negative : Bool) : Binary64 := ⟨negative, infinityMagnitude, by decide⟩

/-- The number that an operation without a meaningful result gives. -/
def notANumber : Binary64 := ⟨false, infinityMagnitude + 2 ^ (51 : Nat), by decide⟩

def isZero (x : Binary64) : Bool := x.magnitude == 0

def isFinite (x : Binary64) : Bool := x.magnitude < infinityMagnitude

def isInfinite (x : Binary64) : Bool := x.magnitude == infinityMagnitude

def isNaN (x : Binary64) : Bool := infinityMagnitude < x.magnitude

def isIntegral (x : Binary64) : Bool := units x.magnitude % unitsPerOne == 0

def toRat (x : Binary64) : Rat :=
  let size := mkRat (units x.magnitude) unitsPerOne
  if x.negative then -size else size

/-- Numeric equality: a value that is not a number differs from everything, itself included, and
the two zeros are equal. -/
def numEq (x y : Binary64) : Bool :=
  !x.isNaN && (x == y || x.isZero && y.isZero)

def ofBits (bits : UInt64) : Binary64 :=
  ⟨2 ^ (63 : Nat) ≤ bits.toNat, bits.toNat % 2 ^ (63 : Nat), Nat.mod_lt _ (by decide)⟩

def toBits (x : Binary64) : UInt64 :=
  UInt64.ofNat ((if x.negative then 2 ^ (63 : Nat) else 0) + x.magnitude)

theorem toNat_toBits (x : Binary64) :
    x.toBits.toNat = (if x.negative then 2 ^ (63 : Nat) else 0) + x.magnitude := by
  have bound := x.magnitude_lt
  rw [toBits, UInt64.toNat_ofNat']
  exact Nat.mod_eq_of_lt (by split <;> omega)

@[simp]
theorem ofBits_toBits (x : Binary64) : ofBits x.toBits = x := by
  obtain ⟨negative, magnitude, bound⟩ := x
  simp only [ofBits, toNat_toBits, mk.injEq]
  cases negative <;> simp <;> omega

@[simp]
theorem toBits_ofBits (bits : UInt64) : (ofBits bits).toBits = bits := by
  have bound := bits.toNat_lt
  apply UInt64.toNat_inj.mp
  rw [toNat_toBits]
  simp only [ofBits, decide_eq_true_eq]
  split <;> omega

theorem isFinite_iff (x : Binary64) : x.isFinite = true ↔ x.magnitude < infinityMagnitude := by
  simp [isFinite]

theorem isInfinite_iff (x : Binary64) : x.isInfinite = true ↔ x.magnitude = infinityMagnitude := by
  simp [isInfinite]

theorem isNaN_iff (x : Binary64) : x.isNaN = true ↔ infinityMagnitude < x.magnitude := by
  simp [isNaN]

theorem isZero_iff (x : Binary64) : x.isZero = true ↔ x.magnitude = 0 := by
  simp [isZero]

theorem isFinite_eq (x : Binary64) : x.isFinite = (!x.isInfinite && !x.isNaN) := by
  rw [Bool.eq_iff_iff]
  simp only [isFinite_iff, Bool.and_eq_true, Bool.not_eq_true', Bool.eq_false_iff, ne_eq,
    isInfinite_iff, isNaN_iff]
  omega

/-- Every number is of one of three kinds. -/
theorem kind_cases (x : Binary64) :
    x.isNaN = true ∨ x.isInfinite = true ∨ x.isFinite = true := by
  rw [isFinite_eq]
  cases x.isNaN <;> cases x.isInfinite <;> simp

theorem regular_of_isFinite {x : Binary64} (finite : x.isFinite = true) :
    x.isNaN = false ∧ x.isInfinite = false := by
  rw [isFinite_eq, Bool.and_eq_true, Bool.not_eq_true', Bool.not_eq_true'] at finite
  exact finite.symm

theorem regular_of_isInfinite {x : Binary64} (infinite : x.isInfinite = true) :
    x.isNaN = false ∧ x.isZero = false := by
  have magnitude := (isInfinite_iff x).mp infinite
  rw [Bool.eq_false_iff, Bool.eq_false_iff, ne_eq, ne_eq, isNaN_iff, isZero_iff, magnitude]
  decide

theorem regular_of_isZero {x : Binary64} (zero : x.isZero = true) :
    x.isNaN = false ∧ x.isInfinite = false := by
  apply regular_of_isFinite
  rw [isFinite_iff, (isZero_iff x).mp zero]
  decide

/-- A magnitude is its significand above the steps that its spacing counts. -/
theorem spacing_add_significand (magnitude : Nat) :
    spacing magnitude * 2 ^ (52 : Nat) + significand magnitude = magnitude := by
  simp only [significand, spacing]
  omega

theorem significand_lt (magnitude : Nat) : significand magnitude < 2 ^ (53 : Nat) := by
  simp only [significand, spacing]
  omega

/-- Only the finest spacing has significands of fewer than 53 bits. -/
theorem le_significand (magnitude : Nat) (coarse : 0 < spacing magnitude) :
    2 ^ (52 : Nat) ≤ significand magnitude := by
  simp only [significand, spacing] at coarse ⊢
  omega

end Binary64
end Calculator
