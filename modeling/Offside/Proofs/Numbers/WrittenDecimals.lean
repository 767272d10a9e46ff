import Offside.Proofs.Lexemes.LongestMatch
import Offside.Proofs.Numbers.Values

/-!
# Written decimals

A decimal in the form with a point is the text of a numeral with the same value. A decimal in the
form with an exponent is no numeral, but its figures and its place can be taken from it. So the
text of a decimal, in whatever style, determines its value.
-/

namespace Offside

namespace Decimal

/-- The value of digits around a point. -/
def pointValue (whole fraction : List Char) : ℚ :=
  placeValue (whole ++ fraction) * 10 ^ (-(fraction.length : Int))

/-- The numeral that the form with a point is the text of. -/
def numeral (negative : Bool) (d : Decimal) : Numeral where
  negative := negative
  whole := orZero d.wholePart
  fraction := orZero d.fractionPart

-- ════════════════════════════════════════════════════════════════════════
-- The form with a point
-- ════════════════════════════════════════════════════════════════════════

theorem pointValue_orZero (whole fraction : List Char) :
    pointValue (orZero whole) (orZero fraction) = pointValue whole fraction := by
  have hfront : pointValue (orZero whole) fraction = pointValue whole fraction := by
    cases whole with
    | nil => simp [orZero, pointValue, placeValue]
    | cons digit rest => rfl
  cases fraction with
  | nil =>
    rw [← hfront, orZero, pointValue, pointValue, placeValue_append]
    simp [placeValue]
  | cons digit rest => exact hfront

theorem allDigits_orZero {digits : List Char} (h : AllDigits digits) :
    AllDigits (orZero digits) := by
  cases digits with
  | nil => simp [orZero, AllDigits]
  | cons digit rest => exact h

theorem orZero_ne_nil (digits : List Char) : orZero digits ≠ [] := by
  cases digits with
  | nil => exact List.cons_ne_nil _ _
  | cons digit rest => exact List.cons_ne_nil _ _

section

variable (d : Decimal)

theorem proper_numeral (negative : Bool) : (d.numeral negative).Proper where
  whole := allDigits_orZero <| List.forall_mem_append.2
    ⟨fun c hmem => d.allDigits_figures c (List.mem_of_mem_take hmem), allDigits_replicate_zero _⟩
  fraction := allDigits_orZero <| List.forall_mem_append.2
    ⟨allDigits_replicate_zero _, fun c hmem => d.allDigits_figures c (List.mem_of_mem_drop hmem)⟩
  some_digit := .inl (orZero_ne_nil _)

theorem text_numeral (negative : Bool) :
    (d.numeral negative).text = Binary64.writeSign negative ++ d.writePlain := by
  have hpoint : Numeral.pointed (d.numeral negative).fraction = '.' :: orZero d.fractionPart :=
    Numeral.pointed_of_ne_nil (orZero_ne_nil _)
  rw [Numeral.text, writePlain, List.append_assoc, hpoint]
  rfl

/-- The parts before and behind the point are the figures, with zeros where the point does not
    stand among them. -/
theorem pointValue_parts : pointValue d.wholePart d.fractionPart = d.value := by
  rw [value_eq_figures, pointValue, wholePart, fractionPart]
  generalize d.figures = figures
  generalize d.place = place
  obtain hpoint | hpoint := Int.le_total place 0
  · have hnone : place.toNat = 0 := by omega
    rw [hnone, List.take_zero, Nat.zero_sub, List.replicate_zero, List.nil_append, List.nil_append,
      List.drop_zero, placeValue_zeros_append, List.length_append, List.length_replicate]
    congr 2
    omega
  · have hnone : (-place).toNat = 0 := by omega
    rw [hnone, List.replicate_zero, List.nil_append]
    obtain hinside | hbehind := Nat.le_total place.toNat figures.length
    · rw [Nat.sub_eq_zero_of_le hinside, List.replicate_zero, List.append_nil,
        List.take_append_drop, List.length_drop]
      congr 2
      omega
    · have hplace : place - figures.length = (place.toNat - figures.length : ℕ) := by omega
      rw [List.take_of_length_le hbehind, List.drop_of_length_le hbehind, List.append_nil,
        placeValue_append_zeros, List.length_nil, hplace, zpow_natCast]
      push_cast
      simp

theorem value_numeral (negative : Bool) : (d.numeral negative).decimal.value = d.value := by
  rw [← d.pointValue_parts, ← pointValue_orZero, pointValue, ← ofDigitChars_eq_placeValue]
  rfl

end

-- ════════════════════════════════════════════════════════════════════════
-- The form with an exponent
-- ════════════════════════════════════════════════════════════════════════

/-- What stands in front of the exponent. -/
def mantissa (d : Decimal) : List Char :=
  d.figures.take 1 ++ (if d.figures.length ≤ 1 then [] else '.' :: d.figures.drop 1)

theorem writeScientific_eq (places : Nat) (d : Decimal) :
    d.writeScientific places = d.mantissa ++ 'e' :: writeExponent places (d.place - 1) := rfl

theorem mem_mantissa {d : Decimal} {c : Char} (hmem : c ∈ d.mantissa) :
    c.isDigit = true ∨ c = '.' := by
  obtain hfirst | hrest := List.mem_append.1 hmem
  · exact .inl (d.allDigits_figures c (List.mem_of_mem_take hfirst))
  · split at hrest
    · cases hrest
    · obtain rfl | hbehind := List.mem_cons.1 hrest
      · exact .inr rfl
      · exact .inl (d.allDigits_figures c (List.mem_of_mem_drop hbehind))

theorem not_mem_mantissa (d : Decimal) : 'e' ∉ d.mantissa := by
  intro hmem
  obtain hdigit | hpoint := mem_mantissa hmem
  · cases hdigit
  · cases hpoint

/-- The figures of a decimal are the digits in front of its exponent. -/
theorem filter_mantissa (d : Decimal) : d.mantissa.filter Char.isDigit = d.figures := by
  have hkept {digits : List Char} (h : AllDigits digits) : digits.filter Char.isDigit = digits :=
    List.filter_eq_self.2 h
  have hfirst : AllDigits (d.figures.take 1) := fun c hmem =>
    d.allDigits_figures c (List.mem_of_mem_take hmem)
  have hrest : AllDigits (d.figures.drop 1) := fun c hmem =>
    d.allDigits_figures c (List.mem_of_mem_drop hmem)
  rw [mantissa, List.filter_append, hkept hfirst]
  split
  · next hshort => rw [List.filter_nil, List.append_nil, List.take_of_length_le hshort]
  · rw [List.filter_cons_of_neg (by decide), hkept hrest, List.take_append_drop]

theorem writeExponent_eq (places : Nat) (exponent : Int) :
    writeExponent places exponent = (if exponent < 0 then '-' else '+') ::
      (List.replicate (places - (Nat.toDigits 10 exponent.natAbs).length) '0' ++
        Nat.toDigits 10 exponent.natAbs) := rfl

theorem mem_writeExponent {places : Nat} {exponent : Int} {c : Char}
    (hmem : c ∈ writeExponent places exponent) : c.isDigit = true ∨ c = '-' ∨ c = '+' := by
  rw [writeExponent_eq, List.mem_cons, List.mem_append] at hmem
  obtain hsign | hzero | hdigit := hmem
  · split at hsign
    · exact .inr (.inl hsign)
    · exact .inr (.inr hsign)
  · exact .inl (allDigits_replicate_zero _ c hzero)
  · exact .inl (allDigits_toDigits _ c hdigit)

/-- The text of an exponent determines it: the sign stands in front, and zeros behind it do not
    count. -/
theorem writeExponent_inj {places : Nat} {exponent exponent' : Int}
    (h : writeExponent places exponent = writeExponent places exponent') :
    exponent = exponent' := by
  rw [writeExponent_eq, writeExponent_eq] at h
  obtain ⟨hsign, hdigits⟩ := List.cons.inj h
  have hmagnitude := congrArg placeValue hdigits
  rw [placeValue_zeros_append, placeValue_zeros_append, placeValue_toDigits,
    placeValue_toDigits] at hmagnitude
  split at hsign
  · split at hsign
    · omega
    · cases hsign
  · split at hsign
    · cases hsign
    · omega

theorem value_eq_of_writeScientific_eq {places : Nat} {d d' : Decimal}
    (h : d.writeScientific places = d'.writeScientific places) : d.value = d'.value := by
  have hfront (d : Decimal) :
      (d.writeScientific places).takeWhile (· != 'e') = d.mantissa := by
    have hkept : ∀ c ∈ d.mantissa, (c != 'e') = true := fun c hmem =>
      bne_iff_ne.2 fun heq => d.not_mem_mantissa (heq ▸ hmem)
    rw [writeScientific_eq, List.takeWhile_append_of_pos hkept,
      List.takeWhile_cons_of_neg (by decide), List.append_nil]
  have hmantissa : d.mantissa = d'.mantissa := by
    rw [← hfront, h, hfront]
  have hfigures : d.figures = d'.figures := by
    rw [← d.filter_mantissa, hmantissa, d'.filter_mantissa]
  rw [writeScientific_eq, writeScientific_eq, hmantissa] at h
  have hexponent := writeExponent_inj (List.cons.inj (List.append_cancel_left h)).2
  have hplace : d.place = d'.place := by omega
  rw [value_eq_figures, hfigures, hplace, ← value_eq_figures]

-- ════════════════════════════════════════════════════════════════════════
-- Any form
-- ════════════════════════════════════════════════════════════════════════

/-- A decimal is written in a style without an exponent. -/
def IsPlain (style : Style) (d : Decimal) : Prop :=
  style.plainFrom ≤ d.place - 1 ∧ d.place - 1 < style.plainBelow

section

variable {style : Style} {d d' : Decimal}

theorem write_of_isPlain (h : d.IsPlain style) : d.write style = d.writePlain :=
  if_pos h

theorem write_of_not_isPlain (h : ¬ d.IsPlain style) :
    d.write style = d.writeScientific style.exponentPlaces :=
  if_neg h

theorem mem_writePlain {c : Char} (hmem : c ∈ d.writePlain) : c.isDigit = true ∨ c = '.' := by
  obtain hwhole | hpoint := List.mem_append.1 hmem
  · exact .inl ((d.proper_numeral false).whole c hwhole)
  · obtain rfl | hfraction := List.mem_cons.1 hpoint
    · exact .inr rfl
    · exact .inl ((d.proper_numeral false).fraction c hfraction)

theorem mem_write {c : Char} (hmem : c ∈ d.write style) :
    c.isDigit = true ∨ c ∈ ['-', '+', '.', 'e'] := by
  by_cases hplain : d.IsPlain style
  · rw [write_of_isPlain hplain] at hmem
    exact (mem_writePlain hmem).imp id fun heq => by simp [heq]
  · rw [write_of_not_isPlain hplain, writeScientific_eq, List.mem_append, List.mem_cons] at hmem
    obtain hmantissa | rfl | hexponent := hmem
    · exact (mem_mantissa hmantissa).imp id fun heq => by simp [heq]
    · exact .inr (by decide)
    · exact (mem_writeExponent hexponent).imp id fun heq => by
        obtain rfl | rfl := heq <;> decide

/-- The mark of an exponent is written just in the form that has one. -/
theorem mark_mem_write_iff : 'e' ∈ d.write style ↔ ¬ d.IsPlain style := by
  refine ⟨fun hmem hplain => ?_, fun hplain => ?_⟩
  · rw [write_of_isPlain hplain] at hmem
    obtain hdigit | hpoint := mem_writePlain hmem
    · cases hdigit
    · cases hpoint
  · rw [write_of_not_isPlain hplain, writeScientific_eq]
    exact List.mem_append_cons_self

/-- The text of a decimal has no sign in front. -/
theorem head?_write_ne_minus : (d.write style).head? ≠ some '-' := by
  by_cases hplain : d.IsPlain style
  · rw [write_of_isPlain hplain, writePlain, List.head?_append_of_ne_nil _ (orZero_ne_nil _)]
    intro hhead
    have hdigit := (d.proper_numeral false).whole '-' (List.mem_of_head? hhead)
    cases hdigit
  · rw [write_of_not_isPlain hplain, writeScientific_eq]
    intro hhead
    cases hmantissa : d.mantissa with
    | nil =>
      rw [hmantissa] at hhead
      cases hhead
    | cons c rest =>
      rw [hmantissa] at hhead
      cases hhead
      obtain hdigit | hpoint := mem_mantissa (hmantissa ▸ List.mem_cons_self : '-' ∈ d.mantissa)
      · cases hdigit
      · cases hpoint

/-- The text of a decimal, in whatever style, determines its value. -/
theorem value_eq_of_write_eq (h : d.write style = d'.write style) : d.value = d'.value := by
  by_cases hplain : d.IsPlain style
  · have hplain' : d'.IsPlain style := by
      by_contra hother
      exact mark_mem_write_iff.1 (h ▸ mark_mem_write_iff.2 hother) hplain
    rw [write_of_isPlain hplain, write_of_isPlain hplain'] at h
    have htext : (d.numeral false).text = (d'.numeral false).text := by
      rw [text_numeral, text_numeral, h]
    have hnumeral := congrArg Numeral.ofText htext
    rw [(d.proper_numeral false).ofText_text, (d'.proper_numeral false).ofText_text] at hnumeral
    rw [← d.value_numeral false, hnumeral, d'.value_numeral]
  · have hplain' : ¬ d'.IsPlain style := mark_mem_write_iff.1 (h ▸ mark_mem_write_iff.2 hplain)
    rw [write_of_not_isPlain hplain, write_of_not_isPlain hplain'] at h
    exact value_eq_of_writeScientific_eq h

end

end Decimal

end Offside
