import Offside.Binary64.Shortest

/-!
# Literals

The value that a token denotes, where it denotes one: a truth value, a whole
number of any size or a binary64 number. Most tokens denote nothing.
-/

namespace Offside

/-- The value that a token denotes. -/
inductive Literal where
  | absent
  | boolean (value : Bool)
  | integer (value : Int)
  | float (value : Binary64)
deriving DecidableEq, Repr

/-- What a value amounts to as a number: so many units of `Binary64`, or an infinity. -/
inductive Quantity where
  | units (count : Int)
  | unbounded (negative : Bool)
deriving DecidableEq, Repr

namespace Literal

/-- The number that a value amounts to. Truth values count as one and zero; an absent
    value and not-a-number amount to no number. -/
def quantity? : Literal → Option Quantity
  | absent => none
  | boolean value => some (.units (value.toNat * Binary64.unitsPerOne : Nat))
  | integer value => some (.units (value * Binary64.unitsPerOne))
  | float (.infinite negative) => some (.unbounded negative)
  | float value => value.units?.map .units

/-- Two values are the same when both are absent or both amount to one number. So
    one, true and the float one are the same, and not-a-number is not even the same as
    itself. -/
def Same (a b : Literal) : Prop :=
  (a = absent ∧ b = absent) ∨ (a.quantity?.isSome ∧ a.quantity? = b.quantity?)

instance (a b : Literal) : Decidable (Same a b) :=
  inferInstanceAs (Decidable (_ ∨ _))

theorem Same.symm {a b : Literal} (h : Same a b) : Same b a := by
  rcases h with ⟨ha, hb⟩ | ⟨hsome, heq⟩
  · exact .inl ⟨hb, ha⟩
  · exact .inr ⟨heq ▸ hsome, heq.symm⟩

/-- A value counts as true unless it is absent, false or a zero. -/
def isTrue : Literal → Bool
  | absent => false
  | boolean value => value
  | integer value => value ≠ 0
  | float value => !value.isZero

/-- Floats are written with a point while the exponent of the first figure is from -4
    to 15, and with an exponent of at least two digits otherwise. -/
def floatStyle : Decimal.Style where
  plainFrom := -4
  plainBelow := 16
  exponentPlaces := 2

def text : Literal → String
  | absent => "None"
  | boolean true => "True"
  | boolean false => "False"
  | integer value => toString value
  | float value => String.ofList (value.write floatStyle)

example : (float (Binary64.ofDecimal false ⟨1, 16⟩)).text = "1e+16" ∧
    (float (Binary64.ofDecimal false ⟨9999999999999998, 0⟩)).text = "9999999999999998.0" ∧
    (float (Binary64.ofDecimal true ⟨1, -4⟩)).text = "-0.0001" ∧
    (float (Binary64.ofDecimal false ⟨1, -5⟩)).text = "1e-05" := by
  decide +kernel

end Literal

end Offside
