import Offside.Decimal.Basic

/-!
# The text of a decimal

A decimal is written with its figures around a point, or with an exponent when it
is very large or very small. A style says where the one form gives way to the
other.
-/

namespace Offside.Decimal

/-- The choices of a written form: a point alone serves while the exponent of the first
    figure is at least `plainFrom` and below `plainBelow`; other exponents are written, with
    `exponentPlaces` digits or more. -/
structure Style where
  plainFrom : Int
  plainBelow : Int
  exponentPlaces : Nat
deriving DecidableEq, Repr

/-- A part of a number that has no figures is written as one zero. -/
def orZero : List Char → List Char
  | [] => ['0']
  | figures => figures

/-- The figures before the point, filled up with zeros to the place of the point. -/
def wholePart (d : Decimal) : List Char :=
  d.figures.take d.place.toNat ++ List.replicate (d.place.toNat - d.figures.length) '0'

/-- The figures behind the point, after the zeros that come before the first. -/
def fractionPart (d : Decimal) : List Char :=
  List.replicate (-d.place).toNat '0' ++ d.figures.drop d.place.toNat

/-- The form with a point: at least one digit on either side of it. -/
def writePlain (d : Decimal) : List Char :=
  orZero d.wholePart ++ '.' :: orZero d.fractionPart

/-- An exponent with its sign, filled up with zeros to `places` digits. -/
def writeExponent (places : Nat) (exponent : Int) : List Char :=
  let digits := Nat.toDigits 10 exponent.natAbs
  (if exponent < 0 then '-' else '+') ::
    List.replicate (places - digits.length) '0' ++ digits

/-- The form with an exponent: one figure before the point, and no point when there are
    no more figures. -/
def writeScientific (places : Nat) (d : Decimal) : List Char :=
  d.figures.take 1 ++ (if d.figures.length ≤ 1 then [] else '.' :: d.figures.drop 1) ++
    'e' :: writeExponent places (d.place - 1)

/-- The text of a decimal in a style. -/
def write (style : Style) (d : Decimal) : List Char :=
  if style.plainFrom ≤ d.place - 1 ∧ d.place - 1 < style.plainBelow then d.writePlain
  else d.writeScientific style.exponentPlaces

example : writePlain ⟨25, -1⟩ = "2.5".toList ∧ writePlain ⟨3, 2⟩ = "300.0".toList ∧
    writePlain ⟨7, -3⟩ = "0.007".toList ∧ writePlain ⟨0, 0⟩ = "0.0".toList := by
  decide +kernel

example : writeScientific 2 ⟨10, 15⟩ = "1e+16".toList ∧
    writeScientific 2 ⟨125, -324⟩ = "1.25e-322".toList := by
  decide +kernel

end Offside.Decimal
