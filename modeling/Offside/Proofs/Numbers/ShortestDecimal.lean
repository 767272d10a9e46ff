import Mathlib.Algebra.Order.Floor.Semifield
import Mathlib.Data.Rat.Floor
import Offside.Binary64.Shortest
import Offside.Proofs.Numbers.Rounding

/-!
# The shortest decimal and its number

The shortest decimal of a number is rounded to this number again. It need not have the value of the
number, but it lies between the same powers of ten, the upper one included. Where a power of ten is
itself the value of a number, or is rounded up to one, the two are also on the same side of it.
-/

namespace Offside.Binary64

/-- The exact value of a finite number, without its sign. -/
def size (significand scale : Nat) : ℚ :=
  (significand * Nat.pow 2 scale : ℕ) / (unitsPerOne : ℕ)

theorem countBelow_bounds (num den : Nat) (place : Int) :
    (countBelow num den place : ℚ) * 10 ^ place ≤ num / den ∧
      (num : ℚ) / den < (countBelow num den place + 1) * 10 ^ place := by
  have hten : (0 : ℚ) < 10 ^ place := by positivity
  have hquotient : (num : ℚ) / den / 10 ^ place =
      (num * Nat.pow 10 (-place).toNat : ℕ) / (den * Nat.pow 10 place.toNat : ℕ) := by
    rw [Decimal.ten_zpow, Nat.pow_eq, Nat.pow_eq]
    push_cast
    field_simp
  rw [← le_div_iff₀ hten, ← div_lt_iff₀ hten, hquotient, countBelow,
    ← Nat.floor_div_eq_div (K := ℚ)]
  exact ⟨Nat.floor_le (by positivity), Nat.lt_floor_add_one _⟩

/-- A decimal found on a grid counts the powers of ten below the value, or one more. -/
theorem digits_of_nearestOnGrid? {x : Binary64} {num den : Nat} {place : Int} {d : Decimal}
    (h : nearestOnGrid? x num den place = some d) :
    d = ⟨countBelow num den place, place⟩ ∨ d = ⟨countBelow num den place + 1, place⟩ := by
  simp only [nearestOnGrid?] at h
  split at h
  · split at h
    · cases h
      obtain heq | heq := nearer_eq num den (countBelow num den place) place
      · exact .inl (by rw [heq])
      · exact .inr (by rw [heq])
    · cases h
      exact .inl rfl
  · split at h
    · cases h
      exact .inr rfl
    · cases h

/-- The powers of ten around a fraction, counted on the grid of a given number of digits. -/
theorem ten_zpow_grid (place : Int) (digits : Nat) :
    (10 : ℚ) ^ (place - 1) = 10 ^ digits * 10 ^ (place - (digits + 1 : Nat)) ∧
      (10 : ℚ) ^ place = 10 ^ (digits + 1) * 10 ^ (place - (digits + 1 : Nat)) := by
  have hten : (10 : ℚ) ≠ 0 := by norm_num
  rw [← zpow_natCast, ← zpow_natCast, ← zpow_add₀ hten, ← zpow_add₀ hten]
  constructor
  · congr 1
    omega
  · congr 1
    omega

/-- On the grid of a given number of digits, what is counted below a fraction has so many of
    them. -/
theorem countBelow_grid_bounds {num den : Nat} (hnum : 0 < num) (hden : 0 < den) (digits : Nat) :
    10 ^ digits ≤ countBelow num den (Decimal.placeOf num den - (digits + 1 : Nat)) ∧
      countBelow num den (Decimal.placeOf num den - (digits + 1 : Nat)) < 10 ^ (digits + 1) := by
  obtain ⟨hlow, hhigh⟩ := Decimal.placeOf_bounds hnum hden
  obtain ⟨hfront, hback⟩ := ten_zpow_grid (Decimal.placeOf num den) digits
  obtain ⟨hbelow, habove⟩ :=
    countBelow_bounds num den (Decimal.placeOf num den - (digits + 1 : Nat))
  rw [hfront] at hlow
  rw [hback] at hhigh
  generalize Decimal.placeOf num den - (digits + 1 : Nat) = place at *
  have hten : (0 : ℚ) ≤ 10 ^ place := by positivity
  have hleast := lt_of_mul_lt_mul_right (hlow.trans_lt habove) hten
  have hmost := lt_of_mul_lt_mul_right (hbelow.trans_lt hhigh) hten
  exact ⟨Nat.le_of_lt_succ (by exact_mod_cast hleast), by exact_mod_cast hmost⟩

theorem value_grid_bounds {digits count : Nat} (place : Int) (hleast : 10 ^ digits ≤ count)
    (hmost : count ≤ 10 ^ (digits + 1)) :
    (10 : ℚ) ^ (place - 1) ≤ (Decimal.mk count (place - (digits + 1 : Nat))).value ∧
      (Decimal.mk count (place - (digits + 1 : Nat))).value ≤ 10 ^ place := by
  obtain ⟨hfront, hback⟩ := ten_zpow_grid place digits
  rw [hfront, hback, Decimal.value]
  constructor
  · gcongr
    exact_mod_cast hleast
  · gcongr
    exact_mod_cast hmost

/-- A decimal found on a grid lies between the same powers of ten as the value, or is the upper
    one. -/
theorem value_bounds_of_nearestOnGrid? {x : Binary64} {num den digits : Nat} {d : Decimal}
    (hnum : 0 < num) (hden : 0 < den)
    (h : nearestOnGrid? x num den (Decimal.placeOf num den - (digits + 1 : Nat)) = some d) :
    (10 : ℚ) ^ (Decimal.placeOf num den - 1) ≤ d.value ∧
      d.value ≤ 10 ^ Decimal.placeOf num den := by
  obtain ⟨hleast, hmost⟩ := countBelow_grid_bounds hnum hden digits
  obtain rfl | rfl := digits_of_nearestOnGrid? h
  · exact value_grid_bounds _ hleast hmost.le
  · exact value_grid_bounds _ (Nat.le_succ_of_le hleast) hmost

theorem shortest_of_eq_zero {significand scale : Nat} (h : significand * Nat.pow 2 scale = 0) :
    shortest significand scale = ⟨0, 0⟩ := by
  rw [shortest]
  exact if_pos h

/-- The shortest decimal is found on one of the grids, or it is the exact value. -/
theorem shortest_cases {significand scale : Nat} (h : significand * Nat.pow 2 scale ≠ 0) :
    (∃ digits, nearestOnGrid? (finite false significand scale) (significand * Nat.pow 2 scale)
      unitsPerOne (Decimal.placeOf (significand * Nat.pow 2 scale) unitsPerOne -
        (digits + 1 : Nat)) = some (shortest significand scale)) ∨
      shortest significand scale = ⟨significand * Nat.pow 2 scale * Nat.pow 5 1074, -1074⟩ := by
  simp only [shortest, if_neg h]
  generalize significand * Nat.pow 2 scale = units
  cases hfound : ((List.range maxDigits).map fun digits =>
      Decimal.placeOf units unitsPerOne - (digits + 1 : Nat)).findSome?
        (nearestOnGrid? (finite false significand scale) units unitsPerOne) with
  | none => exact .inr rfl
  | some d =>
    obtain ⟨place, hmem, hplace⟩ := List.exists_of_findSome?_eq_some hfound
    obtain ⟨digits, -, rfl⟩ := List.mem_map.1 hmem
    exact .inl ⟨digits, hplace⟩

/-- A fraction over a power of two as a decimal. -/
theorem value_exact {exponent twos fives : Nat} {place : Int} (hplace : place = -exponent)
    (htwos : twos = 2 ^ exponent) (hfives : fives = 5 ^ exponent) (units : Nat) :
    (Decimal.mk (units * fives) place).value = units / twos := by
  have hten : (10 : ℚ) = 5 * 2 := by norm_num
  rw [hplace, htwos, hfives, Decimal.value, zpow_neg, zpow_natCast, hten, mul_pow]
  push_cast
  field_simp

theorem value_units (units : Nat) :
    (Decimal.mk (units * Nat.pow 5 1074) (-1074)).value = units / unitsPerOne :=
  value_exact rfl (by decide +kernel) (by decide +kernel) units

/-- The shortest decimal reads back as the number it is made for. -/
theorem ofDecimal_shortest {significand scale : Nat} (h : Reduced significand scale)
    (negative : Bool) :
    ofDecimal negative (shortest significand scale) = finite negative significand scale := by
  rw [ofDecimal, ofFraction_eq_finite_iff, ← ofDecimal]
  by_cases hzero : significand * Nat.pow 2 scale = 0
  · obtain rfl | hpow := Nat.mul_eq_zero.1 hzero
    · have hscale := h.scaleOf_eq
      rw [hzero] at hscale
      obtain rfl : scale = 0 := hscale.symm
      rw [shortest_of_eq_zero hzero]
      decide +kernel
    · exact absurd hpow (Nat.pow_pos (by decide)).ne'
  · obtain ⟨digits, hfound⟩ | hexact := shortest_cases hzero
    · exact ofDecimal_of_nearestOnGrid? hfound
    · rw [hexact, ofDecimal_of_value_eq_div unitsPerOne_pos (value_units _)]
      exact ofFraction_units h false

/-- The shortest decimal of a number other than zero lies between the same powers of ten as the
    number, or is the upper one. -/
theorem value_shortest_bounds {significand scale : Nat}
    (h : significand * Nat.pow 2 scale ≠ 0) :
    (10 : ℚ) ^ (Decimal.placeOf (significand * Nat.pow 2 scale) unitsPerOne - 1) ≤
        (shortest significand scale).value ∧
      (shortest significand scale).value ≤
        10 ^ Decimal.placeOf (significand * Nat.pow 2 scale) unitsPerOne := by
  obtain ⟨digits, hfound⟩ | hexact := shortest_cases h
  · exact value_bounds_of_nearestOnGrid? (Nat.pos_of_ne_zero h) unitsPerOne_pos hfound
  · obtain ⟨hlow, hhigh⟩ := Decimal.placeOf_bounds (Nat.pos_of_ne_zero h) unitsPerOne_pos
    rw [hexact, value_units]
    exact ⟨hlow, hhigh.le⟩

/-- A power of ten is compared with a number by counting units. -/
theorem ten_zpow_le_size_iff {exponent : Int} {significand scale : Nat} :
    (10 : ℚ) ^ exponent ≤ size significand scale ↔
      10 ^ exponent.toNat * unitsPerOne ≤
        significand * Nat.pow 2 scale * 10 ^ (-exponent).toNat := by
  have hpos : (0 : ℚ) < unitsPerOne := by exact_mod_cast unitsPerOne_pos
  rw [Decimal.ten_zpow, size, div_le_div_iff₀ (by positivity) hpos]
  exact_mod_cast Iff.rfl

/-- Rounding does not make this power of ten smaller. -/
def RoundsUp (exponent : Int) : Prop :=
  ∃ significand scale, ofDecimal false ⟨1, exponent⟩ = finite false significand scale ∧
    (10 : ℚ) ^ exponent ≤ size significand scale

-- The two ends of the range of plain decimals.

theorem roundsUp_lower : RoundsUp (-4) :=
  ⟨7378697629483821, 1008, by decide +kernel, ten_zpow_le_size_iff.2 (by decide +kernel)⟩

theorem roundsUp_upper : RoundsUp 16 :=
  ⟨5000000000000000, 1075, by decide +kernel, ten_zpow_le_size_iff.2 (by decide +kernel)⟩

/-- A number and its shortest decimal are on the same side of a power of ten, if this is not
    rounded down. -/
theorem ten_zpow_le_value_shortest_iff {exponent : Int} (hup : RoundsUp exponent)
    {significand scale : Nat} (h : Reduced significand scale)
    (hne : significand * Nat.pow 2 scale ≠ 0) :
    (10 : ℚ) ^ exponent ≤ (shortest significand scale).value ↔
      (10 : ℚ) ^ exponent ≤ size significand scale := by
  have hten : (1 : ℚ) < 10 := by norm_num
  obtain ⟨hlow, hhigh⟩ := value_shortest_bounds hne
  obtain ⟨hfrom, hbelow⟩ :=
    Decimal.placeOf_bounds (Nat.pos_of_ne_zero hne) unitsPerOne_pos
  rw [← size] at hfrom hbelow
  generalize Decimal.placeOf (significand * Nat.pow 2 scale) unitsPerOne = place at *
  constructor
  · intro hle
    by_contra hlt
    have hplace := (zpow_lt_zpow_iff_right₀ hten).1 (hfrom.trans_lt (not_le.1 hlt))
    have hmost : (shortest significand scale).value ≤ 10 ^ exponent :=
      hhigh.trans (zpow_le_zpow_right₀ hten.le (by omega))
    have hvalue : (shortest significand scale).value = (Decimal.mk 1 exponent).value := by
      rw [le_antisymm hmost hle, Decimal.value, Nat.cast_one, one_mul]
    obtain ⟨significand', scale', hround, hsize⟩ := hup
    have hread := ofDecimal_shortest h false
    rw [ofDecimal_eq_of_value_eq hvalue, hround] at hread
    cases hread
    exact hlt hsize
  · intro hle
    have hplace := (zpow_lt_zpow_iff_right₀ hten).1 (hle.trans_lt hbelow)
    exact (zpow_le_zpow_right₀ hten.le (by omega)).trans hlow

end Offside.Binary64
