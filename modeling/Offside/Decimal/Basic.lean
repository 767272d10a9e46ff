/-!
# Decimals

A decimal is a natural number of digits together with the power of ten that its
last digit counts. A decimal is seen in two ways: as a fraction, for exact
comparison, and as its figures behind a point, for writing it down.
-/

namespace Offside

/-- A decimal: `digits * 10 ^ exponent`. -/
structure Decimal where
  digits : Nat
  exponent : Int
deriving DecidableEq, Repr

namespace Decimal

-- The decimal as a fraction; one of the two powers is always one.

def num (d : Decimal) : Nat :=
  d.digits * Nat.pow 10 d.exponent.toNat

def den (d : Decimal) : Nat :=
  Nat.pow 10 (-d.exponent).toNat

/-- The digits as written, without the zeros at their end. -/
def figures (d : Decimal) : List Char :=
  ((Nat.toDigits 10 d.digits).reverse.dropWhile (· == '0')).reverse

/-- The number of places that the point stands behind the start of the digits;
    negative when zeros stand between the point and the first digit. -/
def place (d : Decimal) : Int :=
  (Nat.toDigits 10 d.digits).length + d.exponent

/-- The least place of any decimal above a positive fraction: the least `k` such that
    `num / den < 10 ^ k`. -/
def placeOf (num den : Nat) : Int :=
  if den ≤ num then (Nat.toDigits 10 (num / den)).length
  else 1 - (Nat.toDigits 10 ((den - 1) / num)).length

example : placeOf 999 1 = 3 ∧ placeOf 1000 1 = 4 := by decide +kernel

example : placeOf 1 1000 = -2 ∧ placeOf 999 100000 = -2 ∧ placeOf 1 1 = 1 := by decide +kernel

end Decimal

end Offside
