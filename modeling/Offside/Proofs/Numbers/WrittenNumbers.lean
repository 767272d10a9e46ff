import Offside.Proofs.Numbers.ShortestDecimal
import Offside.Proofs.Numbers.WrittenDecimals
import Offside.Token.Literal

/-!
# Written numbers

A number that rounding has made is determined by its text, in whatever style: the sign stands in
front, and the shortest decimal behind it is rounded to the number again. In the style of floats
the zeros and the numbers from `10 ^ (-4)` up to `10 ^ 16` are written without an exponent, and the
text of such a number is that of a numeral which denotes it.
-/

namespace Offside.Binary64

/-- The numbers that rounding makes. -/
def IsRounded : Binary64 → Prop
  | finite _ significand scale => Reduced significand scale
  | infinite _ => True
  | nan => False

/-- The numbers that floats are written for without an exponent: the zeros, and what is at least
    `10 ^ (-4)` and less than `10 ^ 16` without its sign. -/
def InPlainRange : Binary64 → Prop
  | finite _ significand scale =>
    size significand scale = 0 ∨
      (10 : ℚ) ^ (-4 : ℤ) ≤ size significand scale ∧ size significand scale < 10 ^ (16 : ℤ)
  | _ => False

theorem inPlainRange_finite_iff {negative : Bool} {significand scale : Nat} :
    (finite negative significand scale).InPlainRange ↔
      significand * Nat.pow 2 scale = 0 ∨
        unitsPerOne ≤ significand * Nat.pow 2 scale * 10 ^ 4 ∧
          significand * Nat.pow 2 scale < 10 ^ 16 * unitsPerOne := by
  have hne : (unitsPerOne : ℚ) ≠ 0 := by exact_mod_cast unitsPerOne_pos.ne'
  rw [InPlainRange, ← not_le, ten_zpow_le_size_iff, ten_zpow_le_size_iff, not_le, size,
    div_eq_zero_iff, or_iff_left hne, Nat.cast_eq_zero]
  simp

instance : DecidablePred InPlainRange
  | finite _ _ _ => decidable_of_iff _ inPlainRange_finite_iff.symm
  | infinite _ => .isFalse id
  | nan => .isFalse id

theorem isRounded_ofDecimal (negative : Bool) (d : Decimal) : (ofDecimal negative d).IsRounded := by
  rw [ofDecimal]
  obtain hinfinite | ⟨significand, scale, hreduced, hfinite⟩ :=
    ofFraction_cases d.num d.den negative
  · rw [hinfinite]
    trivial
  · rw [hfinite]
    exact hreduced

section

variable {style : Decimal.Style}

theorem mem_write_finite {negative : Bool} {significand scale : Nat} {c : Char}
    (hmem : c ∈ (finite negative significand scale).write style) :
    c.isDigit = true ∨ c ∈ ['-', '+', '.', 'e'] := by
  obtain hsign | hdecimal := List.mem_append.1 hmem
  · cases negative with
    | true =>
      obtain rfl := List.mem_singleton.1 hsign
      exact .inr (by decide)
    | false => cases hsign
  · exact Decimal.mem_write hdecimal

theorem write_finite_ne_infinite (negative negative' : Bool) (significand scale : Nat) :
    (finite negative significand scale).write style ≠ (infinite negative').write style := by
  intro h
  have hmem : 'n' ∈ (infinite negative').write style := List.mem_append_right _ (by decide)
  rw [← h] at hmem
  obtain hdigit | hother := mem_write_finite hmem
  · cases hdigit
  · revert hother
    decide

/-- The text of a number that rounding has made determines it. -/
theorem write_inj {x y : Binary64} (hx : x.IsRounded) (hy : y.IsRounded) :
    x.write style = y.write style ↔ x = y := by
  refine ⟨fun h => ?_, congrArg _⟩
  cases x with
  | nan => cases hx
  | infinite negative =>
    cases y with
    | nan => cases hy
    | infinite negative' =>
      obtain ⟨rfl, -⟩ := writeSign_append_inj (by decide) (by decide) h
      rfl
    | finite negative' significand scale =>
      exact absurd h.symm (write_finite_ne_infinite _ _ _ _)
  | finite negative significand scale =>
    cases y with
    | nan => cases hy
    | infinite negative' => exact absurd h (write_finite_ne_infinite _ _ _ _)
    | finite negative' significand' scale' =>
      obtain ⟨rfl, htext⟩ :=
        writeSign_append_inj Decimal.head?_write_ne_minus Decimal.head?_write_ne_minus h
      rw [← ofDecimal_shortest hx, ← ofDecimal_shortest hy,
        ofDecimal_eq_of_value_eq (Decimal.value_eq_of_write_eq htext)]

end

section

variable {significand scale : Nat} (h : Reduced significand scale)
include h

/-- The numeral of the shortest decimal denotes the number. -/
theorem float_numeral_shortest (negative : Bool) :
    ((shortest significand scale).numeral negative).float = finite negative significand scale := by
  have hvalue := (shortest significand scale).value_numeral negative
  exact (ofDecimal_eq_of_value_eq hvalue negative).trans (ofDecimal_shortest h negative)

/-- The numbers that are written without an exponent. -/
theorem isPlain_shortest_iff (negative : Bool) :
    (shortest significand scale).IsPlain Literal.floatStyle ↔
      (finite negative significand scale).InPlainRange := by
  have hpos : (0 : ℚ) < unitsPerOne := by exact_mod_cast unitsPerOne_pos
  by_cases hzero : significand * Nat.pow 2 scale = 0
  · have hsize : size significand scale = 0 := by
      rw [size, hzero, Nat.cast_zero, zero_div]
    rw [shortest_of_eq_zero hzero]
    exact iff_of_true ⟨by decide +kernel, by decide +kernel⟩ (.inl hsize)
  · have hsize : size significand scale ≠ 0 :=
      div_ne_zero (Nat.cast_ne_zero.2 hzero) hpos.ne'
    have hdigits : 0 < (shortest significand scale).digits := by
      obtain ⟨hlow, -⟩ := value_shortest_bounds hzero
      refine Nat.pos_of_ne_zero fun hnone => ?_
      rw [Decimal.value, hnone, Nat.cast_zero, zero_mul] at hlow
      exact hlow.not_gt (by positivity)
    rw [InPlainRange, or_iff_right hsize, ← ten_zpow_le_value_shortest_iff roundsUp_lower h hzero,
      ← not_le, ← ten_zpow_le_value_shortest_iff roundsUp_upper h hzero,
      Decimal.ten_zpow_le_value_iff hdigits, Decimal.ten_zpow_le_value_iff hdigits]
    simp only [Decimal.IsPlain, Literal.floatStyle]
    omega

end

end Offside.Binary64
