import Offside.Decimal.Basic

/-!
# Binary64 numbers

The floating-point numbers of the 64-bit binary interchange format, as exact
data: a sign, a significand and a power of two. The one operation is rounding,
from a fraction or from a decimal, to the nearest number of the format.

All finite numbers are whole multiples of the least positive one, `2 ^ (-1074)`,
called the unit here. Rounding and comparison are therefore exact arithmetic on
natural numbers, and no machine arithmetic takes part.
-/

namespace Offside

/-- A number of the 64-bit binary format. The finite number with significand `m`
    and scale `s` is `m * 2 ^ s` units; numbers made by rounding have the least
    scale at which the significand fits 53 bits. -/
inductive Binary64 where
  | finite (negative : Bool) (significand scale : Nat)
  | infinite (negative : Bool)
  | nan
deriving DecidableEq, Repr

/-- The whole number nearest to `num / den`; a fraction halfway between two goes to
    the even one. -/
def nearestEven (num den : Nat) : Nat :=
  let whole := num / den
  let rest := num % den
  if 2 * rest < den then whole
  else if den < 2 * rest then whole + 1
  else if whole % 2 = 0 then whole
  else whole + 1

/-- Rounding keeps a fraction that is whole already. -/
theorem nearestEven_mul_self (n den : Nat) (h : 0 < den) : nearestEven (n * den) den = n := by
  simp [nearestEven, Nat.mul_div_cancel _ h, h]

namespace Binary64

def unitsPerOne : Nat := Nat.pow 2 1074

-- A significand has 53 binary digits, and the largest finite numbers have scale 2045.

def precision : Nat := 53

def maxScale : Nat := 2045

/-- A number of the given sign, significand and scale, or an infinity if the scale
    exceeds that of the largest finite numbers. -/
def ofParts (negative : Bool) (significand scale : Nat) : Binary64 :=
  if maxScale < scale then infinite negative else finite negative significand scale

/-- The least scale at which a magnitude of `units` whole units fits the precision. -/
def scaleOf (units : Nat) : Nat :=
  units.log2 + 1 - precision

/-- The number nearest to `num / den` with the given sign. A fraction halfway between
    two numbers goes to the one with the even significand, and a fraction too large for
    a finite number goes to the infinity. -/
def ofFraction (negative : Bool) (num den : Nat) : Binary64 :=
  let num := num * unitsPerOne
  let scale := scaleOf (num / den)
  let significand := nearestEven num (den * Nat.pow 2 scale)
  if significand = Nat.pow 2 precision then
    ofParts negative (Nat.pow 2 (precision - 1)) (scale + 1)
  else ofParts negative significand scale

def ofDecimal (negative : Bool) (d : Decimal) : Binary64 :=
  ofFraction negative d.num d.den

/-- The exact value of a finite number, counted in units. -/
def units? : Binary64 → Option Int
  | finite false significand scale => some (significand * Nat.pow 2 scale : Nat)
  | finite true significand scale => some (-(significand * Nat.pow 2 scale : Nat))
  | _ => none

/-- Both zeros count as zero, and nothing else does. -/
def isZero (x : Binary64) : Bool :=
  x.units? == some 0

example : ofDecimal true ⟨5, -1⟩ = finite true (2 ^ 52) 1021 := by decide +kernel

example : ofDecimal false ⟨2, -324⟩ = finite false 0 0 := by decide +kernel

example : ofDecimal false ⟨1, 309⟩ = infinite false := by decide +kernel

end Binary64

end Offside
