import Offside.Binary64.Basic
import Offside.Proofs.Numbers.Values

/-!
# Rounding

A number is made by rounding from the value of a decimal alone, and not from the way in which the
value is written. What is made is an infinity, or has a significand that fits the precision, at the
least scale. Such a number is its own rounding.
-/

namespace Offside

theorem nearestEven_mul_left {factor : Nat} (h : 0 < factor) (num den : Nat) :
    nearestEven (factor * num) (factor * den) = nearestEven num den := by
  have hdouble : 2 * (factor * (num % den)) = factor * (2 * (num % den)) :=
    Nat.mul_left_comm _ _ _
  simp only [nearestEven, Nat.mul_div_mul_left _ _ h, Nat.mul_mod_mul_left, hdouble,
    Nat.mul_lt_mul_left h]

namespace Binary64

/-- A significand and a scale as rounding makes them: the significand fits the precision, at the
    least scale, and the scale is that of a finite number. -/
structure Reduced (significand scale : Nat) : Prop where
  significand_lt : significand < Nat.pow 2 precision
  scaleOf_eq : scaleOf (significand * Nat.pow 2 scale) = scale
  scale_le : scale ≤ maxScale

theorem unitsPerOne_pos : 0 < unitsPerOne := by
  decide +kernel

theorem ofFraction_mul_left {factor : Nat} (h : 0 < factor) (negative : Bool) (num den : Nat) :
    ofFraction negative (factor * num) (factor * den) = ofFraction negative num den := by
  simp only [ofFraction, Nat.mul_assoc factor, Nat.mul_div_mul_left _ _ h, nearestEven_mul_left h]

/-- Equal fractions are rounded to the same number. -/
theorem ofFraction_eq_of_mul_eq {num den num' den' : Nat} (hden : 0 < den) (hden' : 0 < den')
    (h : num * den' = num' * den) (negative : Bool) :
    ofFraction negative num den = ofFraction negative num' den' := by
  rw [← ofFraction_mul_left hden' negative num den, ← ofFraction_mul_left hden negative num' den',
    Nat.mul_comm den' num, h, Nat.mul_comm num' den, Nat.mul_comm den' den]

theorem ofDecimal_of_value_eq_div {d : Decimal} {num den : Nat} (hden : 0 < den)
    (h : d.value = num / den) (negative : Bool) :
    ofDecimal negative d = ofFraction negative num den := by
  have hd : (d.den : ℚ) ≠ 0 := Nat.cast_ne_zero.2 d.den_pos.ne'
  have hne : (den : ℚ) ≠ 0 := Nat.cast_ne_zero.2 hden.ne'
  rw [← d.num_div_den, div_eq_div_iff hd hne] at h
  exact ofFraction_eq_of_mul_eq d.den_pos hden (by exact_mod_cast h) negative

/-- Rounding a decimal looks at its value only. -/
theorem ofDecimal_eq_of_value_eq {d e : Decimal} (h : d.value = e.value) (negative : Bool) :
    ofDecimal negative d = ofDecimal negative e :=
  ofDecimal_of_value_eq_div e.den_pos (h.trans e.num_div_den.symm) negative

/-- The sign has no part in rounding. -/
theorem ofFraction_eq_finite_iff {negative : Bool} {num den significand scale : Nat} :
    ofFraction negative num den = finite negative significand scale ↔
      ofFraction false num den = finite false significand scale := by
  have hparts (significand' scale' : Nat) :
      ofParts negative significand' scale' = finite negative significand scale ↔
        ofParts false significand' scale' = finite false significand scale := by
    simp only [ofParts]
    split <;> simp
  simp only [ofFraction]
  split
  · exact hparts _ _
  · exact hparts _ _

/-- Rounding keeps what it has made. -/
theorem ofFraction_units {significand scale : Nat} (h : Reduced significand scale)
    (negative : Bool) :
    ofFraction negative (significand * Nat.pow 2 scale) unitsPerOne =
      finite negative significand scale := by
  have hpos : 0 < unitsPerOne * Nat.pow 2 scale :=
    Nat.mul_pos unitsPerOne_pos (Nat.pow_pos (by decide))
  have hnum : significand * Nat.pow 2 scale * unitsPerOne =
      significand * (unitsPerOne * Nat.pow 2 scale) := by
    rw [Nat.mul_assoc, Nat.mul_comm (Nat.pow 2 scale)]
  simp only [ofFraction, Nat.mul_div_cancel _ unitsPerOne_pos, h.scaleOf_eq]
  rw [hnum, nearestEven_mul_self _ _ hpos, if_neg h.significand_lt.ne, ofParts,
    if_neg (Nat.not_lt.2 h.scale_le)]

/-- A magnitude fits the precision at its scale, and not at a lower one. -/
theorem units_bounds (units : Nat) :
    units < 2 ^ (scaleOf units + 53) ∧ (scaleOf units ≠ 0 → 2 ^ (scaleOf units + 52) ≤ units) := by
  simp only [scaleOf, precision]
  constructor
  · calc
      units < 2 ^ (units.log2 + 1) := Nat.lt_log2_self
      _ ≤ 2 ^ (units.log2 + 1 - 53 + 53) := Nat.pow_le_pow_right (by decide) (by omega)
  · intro hscale
    have hlog : units.log2 + 1 - 53 + 52 = units.log2 := by omega
    have hunits : units ≠ 0 := by
      rintro rfl
      exact hscale rfl
    rw [hlog]
    exact Nat.log2_self_le hunits

theorem reduced_of_bounds {significand scale : Nat} (hlt : significand < 2 ^ 53)
    (hle : scale ≠ 0 → 2 ^ 52 ≤ significand) (hscale : scale ≤ maxScale) :
    Reduced significand scale where
  significand_lt := hlt
  scaleOf_eq := by
    simp only [scaleOf, precision, Nat.pow_eq]
    by_cases hzero : scale = 0
    · rw [hzero, Nat.pow_zero, Nat.mul_one]
      by_cases hnone : significand = 0
      · rw [hnone]
        rfl
      · have := (Nat.log2_lt hnone).2 hlt
        omega
    · have hsome := hle hzero
      have hpow : 0 < 2 ^ scale := Nat.pow_pos (by decide)
      have hlog : (significand * 2 ^ scale).log2 = 52 + scale := by
        rw [Nat.log2_eq_iff (Nat.mul_ne_zero (by omega) hpow.ne'), Nat.pow_add,
          Nat.add_right_comm, Nat.pow_add]
        exact ⟨Nat.mul_le_mul_right _ hsome, Nat.mul_lt_mul_of_pos_right hlt hpow⟩
      omega
  scale_le := hscale

theorem ofParts_cases {significand scale : Nat} (hlt : significand < 2 ^ 53)
    (hle : scale ≠ 0 → 2 ^ 52 ≤ significand) (negative : Bool) :
    ofParts negative significand scale = infinite negative ∨
      ∃ significand' scale', Reduced significand' scale' ∧
        ofParts negative significand scale = finite negative significand' scale' := by
  rw [ofParts]
  split
  · exact .inl rfl
  · next hscale =>
    exact .inr ⟨significand, scale, reduced_of_bounds hlt hle (Nat.not_lt.1 hscale), rfl⟩

theorem nearestEven_eq_or (num den : Nat) :
    nearestEven num den = num / den ∨ nearestEven num den = num / den + 1 := by
  simp only [nearestEven]
  repeat' split
  all_goals simp

/-- What rounding makes: an infinity, or a number with significand and scale as small as can be.
    If the significand is rounded up to the next power of two, the scale goes up instead. -/
theorem ofFraction_cases (num den : Nat) (negative : Bool) :
    ofFraction negative num den = infinite negative ∨
      ∃ significand scale, Reduced significand scale ∧
        ofFraction negative num den = finite negative significand scale := by
  simp only [ofFraction]
  generalize num * unitsPerOne = units
  obtain ⟨hlt, hle⟩ := units_bounds (units / den)
  generalize scaleOf (units / den) = scale at hlt hle ⊢
  have hpow : 0 < 2 ^ scale := Nat.pow_pos (by decide)
  have hfits : units / den / 2 ^ scale < 2 ^ 53 := by
    rw [Nat.div_lt_iff_lt_mul hpow, ← Nat.pow_add, Nat.add_comm]
    exact hlt
  have hfills : scale ≠ 0 → 2 ^ 52 ≤ units / den / 2 ^ scale := by
    intro hscale
    rw [Nat.le_div_iff_mul_le hpow, ← Nat.pow_add, Nat.add_comm]
    exact hle hscale
  have hrounded := nearestEven_eq_or units (den * Nat.pow 2 scale)
  rw [← Nat.div_div_eq_div_mul, Nat.pow_eq] at hrounded
  generalize nearestEven units (den * Nat.pow 2 scale) = significand at hrounded ⊢
  split
  · exact ofParts_cases (by decide) (fun _ => le_rfl) negative
  · next hne =>
    have hne' : significand ≠ 2 ^ 53 := hne
    exact ofParts_cases (by omega) (fun hscale => (hfills hscale).trans (by omega)) negative

end Binary64

end Offside
