import Mathlib.Algebra.Order.Field.Power
import Mathlib.Data.List.DropRight
import Mathlib.Data.Rat.Cast.Order
import Mathlib.Tactic.FieldSimp
import Mathlib.Tactic.Positivity
import Offside.Proofs.Numbers.Digits

/-!
# The value of decimals

Decimals and fractions are compared by their values. The place of a decimal says which powers of
ten its value lies between, and so does the place of a fraction. The zeros at the end of the digits
do not count: the figures and the place come to the same value.
-/

namespace Offside

namespace Decimal

/-- The value of a decimal. -/
def value (d : Decimal) : ℚ :=
  d.digits * 10 ^ d.exponent

theorem ten_zpow (exponent : Int) :
    (10 : ℚ) ^ exponent = 10 ^ exponent.toNat / 10 ^ (-exponent).toNat := by
  have hsplit : exponent = exponent.toNat - (-exponent).toNat := by omega
  conv_lhs => rw [hsplit]
  rw [zpow_sub₀ (by norm_num), zpow_natCast, zpow_natCast]

theorem den_pos (d : Decimal) : 0 < d.den :=
  Nat.pow_pos (by decide)

theorem num_div_den (d : Decimal) : (d.num : ℚ) / d.den = d.value := by
  rw [value, ten_zpow, num, den, Nat.pow_eq, Nat.pow_eq]
  push_cast
  ring

/-- The number of digits of a positive number says which powers of ten it lies between. -/
theorem length_toDigits_bounds {n : Nat} (h : 0 < n) :
    10 ^ ((Nat.toDigits 10 n).length - 1) ≤ n ∧ n < 10 ^ (Nat.toDigits 10 n).length := by
  have hpos : 0 < (Nat.toDigits 10 n).length := Nat.length_toDigits_pos
  refine ⟨?_, (Nat.length_toDigits_le_iff (by decide) hpos).1 le_rfl⟩
  by_contra hlt
  obtain hone | hmore := Nat.eq_zero_or_pos ((Nat.toDigits 10 n).length - 1)
  · rw [hone, Nat.pow_zero] at hlt
    omega
  · have hshorter := (Nat.length_toDigits_le_iff (by decide) hmore).2 (Nat.lt_of_not_le hlt)
    omega

/-- The powers of ten around a decimal. -/
theorem value_bounds {d : Decimal} (h : 0 < d.digits) :
    (10 : ℚ) ^ (d.place - 1) ≤ d.value ∧ d.value < 10 ^ d.place := by
  have hpos : 0 < (Nat.toDigits 10 d.digits).length := Nat.length_toDigits_pos
  obtain ⟨hlow, hhigh⟩ := length_toDigits_bounds h
  have hten : (0 : ℚ) < 10 ^ d.exponent := by positivity
  have hfront : d.place - 1 = ((Nat.toDigits 10 d.digits).length - 1 : ℕ) + d.exponent := by
    rw [place]
    omega
  rw [hfront, place, value, zpow_add₀ (by norm_num), zpow_add₀ (by norm_num), zpow_natCast,
    zpow_natCast]
  constructor
  · gcongr
    exact_mod_cast hlow
  · gcongr
    exact_mod_cast hhigh

/-- The place of a decimal says which powers of ten it reaches. -/
theorem ten_zpow_le_value_iff {d : Decimal} (h : 0 < d.digits) {exponent : Int} :
    (10 : ℚ) ^ exponent ≤ d.value ↔ exponent ≤ d.place - 1 := by
  have hten : (1 : ℚ) < 10 := by norm_num
  obtain ⟨hlow, hhigh⟩ := value_bounds h
  constructor
  · intro hle
    have hlt := (zpow_lt_zpow_iff_right₀ hten).1 (hle.trans_lt hhigh)
    omega
  · intro hle
    exact (zpow_le_zpow_right₀ hten.le hle).trans hlow

/-- The powers of ten around a fraction. -/
theorem placeOf_bounds {num den : Nat} (hnum : 0 < num) (hden : 0 < den) :
    (10 : ℚ) ^ (placeOf num den - 1) ≤ num / den ∧ (num : ℚ) / den < 10 ^ placeOf num den := by
  have hnum' : (0 : ℚ) < num := by exact_mod_cast hnum
  have hden' : (0 : ℚ) < den := by exact_mod_cast hden
  rw [placeOf, le_div_iff₀ hden', div_lt_iff₀ hden']
  split
  · next hle =>
    have hpos : 0 < (Nat.toDigits 10 (num / den)).length := Nat.length_toDigits_pos
    obtain ⟨hlow, hhigh⟩ := length_toDigits_bounds (Nat.div_pos hle hden)
    rw [Nat.le_div_iff_mul_le hden] at hlow
    rw [Nat.div_lt_iff_lt_mul hden] at hhigh
    have hfront : ((Nat.toDigits 10 (num / den)).length : Int) - 1 =
        ((Nat.toDigits 10 (num / den)).length - 1 : ℕ) := by omega
    rw [hfront, zpow_natCast, zpow_natCast]
    exact ⟨by exact_mod_cast hlow, by exact_mod_cast hhigh⟩
  · next hlt =>
    have hsome : num ≤ den - 1 := by omega
    have hpos : 0 < (Nat.toDigits 10 ((den - 1) / num)).length := Nat.length_toDigits_pos
    obtain ⟨hlow, hhigh⟩ := length_toDigits_bounds (Nat.div_pos hsome hnum)
    rw [Nat.le_div_iff_mul_le hnum] at hlow
    rw [Nat.div_lt_iff_lt_mul hnum] at hhigh
    generalize (Nat.toDigits 10 ((den - 1) / num)).length = length at *
    have hfront : (1 : Int) - length - 1 = -(length : Int) := by omega
    have hback : (1 : Int) - length = -((length - 1 : ℕ) : Int) := by omega
    have hdenlow : (den : ℚ) ≤ num * 10 ^ length := by
      exact_mod_cast (by rw [Nat.mul_comm]; omega : den ≤ num * 10 ^ length)
    have hdenhigh : (num : ℚ) * 10 ^ (length - 1) < den := by
      exact_mod_cast (by rw [Nat.mul_comm]; omega : num * 10 ^ (length - 1) < den)
    rw [hfront, hback, zpow_neg, zpow_neg, zpow_natCast, zpow_natCast,
      inv_mul_le_iff₀ (by positivity), lt_inv_mul_iff₀ (by positivity), mul_comm _ (num : ℚ),
      mul_comm _ (num : ℚ)]
    exact ⟨hdenlow, hdenhigh⟩

/-- The digits of a decimal are its figures, and behind them zeros. -/
theorem exists_toDigits_eq (d : Decimal) :
    ∃ count, Nat.toDigits 10 d.digits = d.figures ++ List.replicate count '0' := by
  have hzeros : (Nat.toDigits 10 d.digits).rtakeWhile (· == '0') = List.replicate _ '0' :=
    List.eq_replicate_of_mem fun c hmem =>
      eq_of_beq (List.mem_rtakeWhile_imp (p := (· == '0')) hmem)
  refine ⟨((Nat.toDigits 10 d.digits).rtakeWhile (· == '0')).length, ?_⟩
  rw [← hzeros]
  exact List.rdropWhile_append_rtakeWhile.symm

theorem allDigits_figures (d : Decimal) : AllDigits d.figures := by
  obtain ⟨count, hcount⟩ := d.exists_toDigits_eq
  have hall := allDigits_toDigits d.digits
  rw [hcount] at hall
  exact (List.forall_mem_append.1 hall).1

/-- The value of a decimal by its figures and its place. -/
theorem value_eq_figures (d : Decimal) :
    d.value = placeValue d.figures * 10 ^ (d.place - d.figures.length) := by
  obtain ⟨count, hcount⟩ := d.exists_toDigits_eq
  have hdigits : d.digits = placeValue d.figures * 10 ^ count := by
    rw [← placeValue_append_zeros, ← hcount, placeValue_toDigits]
  have hplace : d.place - d.figures.length = count + d.exponent := by
    rw [place, hcount, List.length_append, List.length_replicate]
    omega
  rw [hplace, value, hdigits, zpow_add₀ (by norm_num), zpow_natCast]
  push_cast
  ring

end Decimal

end Offside
