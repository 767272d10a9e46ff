import Offside.Binary64.Basic
import Offside.Decimal.Text

/-!
# The shortest decimal of a number

Many decimals round to one binary64 number. The shortest one is the decimal with
the fewest digits among them and, of those, the one nearest to the number. It is what
a number is written as.

If a decimal with a given last place reads back, then so does one of the two that
enclose the number. The search therefore tests these two, for one digit, two digits
and so on. Seventeen digits identify every number of the format; should the search
come out empty, the exact value of the number is taken.
-/

namespace Offside.Binary64

/-- The greatest multiple of `10 ^ place` that does not exceed `num / den`, as the count
    of that power of ten. -/
def countBelow (num den : Nat) (place : Int) : Nat :=
  num * Nat.pow 10 (-place).toNat / (den * Nat.pow 10 place.toNat)

/-- Of two neighbouring decimals around `num / den`, `low` and the next one, the nearer;
    from the middle the one with the even last digit. -/
def nearer (num den low : Nat) (place : Int) : Nat :=
  let double := 2 * num * Nat.pow 10 (-place).toNat
  let middle := (2 * low + 1) * den * Nat.pow 10 place.toNat
  if double < middle then low
  else if middle < double then low + 1
  else if low % 2 = 0 then low
  else low + 1

/-- The decimal that counts `10 ^ place` and reads back as the positive number `x`, whose
    value is `num / den`. Both neighbours of the value are tried; when both read back,
    the nearer is taken. -/
def nearestOnGrid? (x : Binary64) (num den : Nat) (place : Int) : Option Decimal :=
  let low := countBelow num den place
  let readsBack (digits : Nat) : Bool := ofDecimal false ⟨digits, place⟩ = x
  if readsBack low then
    if readsBack (low + 1) then some ⟨nearer num den low place, place⟩ else some ⟨low, place⟩
  else if readsBack (low + 1) then some ⟨low + 1, place⟩
  else none

/-- The number of digits that suffices to identify every number of the format. -/
def maxDigits : Nat := 17

/-- The shortest decimal that rounds to the number with this significand and scale. -/
def shortest (significand scale : Nat) : Decimal :=
  let units := significand * Nat.pow 2 scale
  if units = 0 then ⟨0, 0⟩
  else
    let place := Decimal.placeOf units unitsPerOne
    let grids := (List.range maxDigits).map fun digits => place - (digits + 1 : Nat)
    let found := grids.findSome? (nearestOnGrid? (finite false significand scale) units unitsPerOne)
    found.getD ⟨units * Nat.pow 5 1074, -1074⟩

/-- The nearer of two decimals is one of them. -/
theorem nearer_eq (num den low : Nat) (place : Int) :
    nearer num den low place = low ∨ nearer num den low place = low + 1 := by
  simp only [nearer]
  repeat' split
  all_goals simp

/-- A decimal that is found on a grid rounds to the number it was sought for. -/
theorem ofDecimal_of_nearestOnGrid? {x : Binary64} {num den : Nat} {place : Int} {d : Decimal}
    (h : nearestOnGrid? x num den place = some d) : ofDecimal false d = x := by
  simp only [nearestOnGrid?, decide_eq_true_eq] at h
  split at h
  · next hlow =>
    split at h
    · next hhigh =>
      rcases nearer_eq num den (countBelow num den place) place with heq | heq
      · rw [heq, Option.some.injEq] at h
        exact h ▸ hlow
      · rw [heq, Option.some.injEq] at h
        exact h ▸ hhigh
    · rw [Option.some.injEq] at h
      exact h ▸ hlow
  · split at h
    · next hhigh =>
      rw [Option.some.injEq] at h
      exact h ▸ hhigh
    · cases h

example : shortest 1 0 = ⟨5, -324⟩ := by decide +kernel

example : shortest (2 ^ 52) 997 = ⟨29802322387695312, -24⟩ := by decide +kernel

/-- The sign in front of a number: a minus sign or nothing. -/
def writeSign (negative : Bool) : List Char :=
  if negative then ['-'] else []

/-- The text of a number, its decimals in the given style. The negative zero has its sign;
    infinities and not-a-number have words of their own. -/
def write (style : Decimal.Style) : Binary64 → List Char
  | finite negative significand scale =>
    writeSign negative ++ (shortest significand scale).write style
  | infinite negative => writeSign negative ++ "inf".toList
  | nan => "nan".toList

end Offside.Binary64
