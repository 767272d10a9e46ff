import Offside.Listing
import Offside.Proofs.Numbers.WrittenNumbers
import Offside.Proofs.Reading.SingleLine

/-!
# Floats in listings

What is listed for a float is its value, written in the style of floats. That is a float of the
grammar, and is read as the same number again, just when it is written without an exponent and is
not infinite. Otherwise a letter stands in it, and no float of the grammar has a letter.
-/

namespace Offside

/-- Digits on both sides of a point, perhaps with a minus sign in front. -/
def IsFloatText (text : List Char) : Prop :=
  ∃ negative whole fraction, AllDigits whole ∧ whole ≠ [] ∧ AllDigits fraction ∧ fraction ≠ [] ∧
    text = Binary64.writeSign negative ++ whole ++ '.' :: fraction

/-- The lexeme that is listed for a number. -/
def floatLexeme (x : Binary64) : Lexeme :=
  ⟨.float, x.write Literal.floatStyle, .float x⟩

-- ════════════════════════════════════════════════════════════════════════
-- The plain range
-- ════════════════════════════════════════════════════════════════════════

section

variable {x : Binary64} (hx : x.IsRounded)
include hx

/-- A number in the plain range is listed as the text of a numeral that denotes it. -/
theorem exists_numeral (hplain : x.InPlainRange) :
    ∃ n : Numeral, n.Proper ∧ n.whole ≠ [] ∧ n.fraction ≠ [] ∧ n.float = x ∧
      n.text = x.write Literal.floatStyle := by
  cases x with
  | nan => cases hx
  | infinite negative => cases hplain
  | finite negative significand scale =>
    have hstyle := (Binary64.isPlain_shortest_iff hx negative).2 hplain
    refine ⟨(Binary64.shortest significand scale).numeral negative,
      Decimal.proper_numeral _ _, Decimal.orZero_ne_nil _, Decimal.orZero_ne_nil _,
      Binary64.float_numeral_shortest hx negative, ?_⟩
    rw [Decimal.text_numeral, Binary64.write, Decimal.write_of_isPlain hstyle]

theorem isFloatText_write (hplain : x.InPlainRange) :
    IsFloatText (x.write Literal.floatStyle) := by
  obtain ⟨n, hproper, hwhole, hfraction, -, htext⟩ := exists_numeral hx hplain
  refine ⟨n.negative, n.whole, n.fraction, hproper.whole, hwhole, hproper.fraction, hfraction, ?_⟩
  rw [← htext, Numeral.text, Numeral.pointed_of_ne_nil hfraction]

theorem formed_floatLexeme (hplain : x.InPlainRange) : (floatLexeme x).Formed := by
  obtain ⟨n, hproper, -, hfraction, hfloat, htext⟩ := exists_numeral hx hplain
  rw [floatLexeme, ← htext, ← hfloat, Numeral.text, Numeral.pointed_of_ne_nil hfraction]
  exact .float n.negative hproper.whole hproper.fraction hfraction

-- ════════════════════════════════════════════════════════════════════════
-- Outside the plain range
-- ════════════════════════════════════════════════════════════════════════

/-- A number outside the plain range is listed with a letter: the mark of an exponent, or those of
    the word for an infinity. -/
theorem exists_letter (hplain : ¬ x.InPlainRange) :
    ∃ c ∈ x.write Literal.floatStyle, isWordStart c = true := by
  cases x with
  | nan => cases hx
  | infinite negative => exact ⟨'n', List.mem_append_right _ (by decide), by decide⟩
  | finite negative significand scale =>
    have hstyle := mt (Binary64.isPlain_shortest_iff hx negative).1 hplain
    exact ⟨'e', List.mem_append_right _ (Decimal.mark_mem_write_iff.2 hstyle), by decide⟩

theorem clean_of_mem_write {c : Char} (hmem : c ∈ x.write Literal.floatStyle) :
    inAlphabet c = true ∧ isBlank c = false := by
  cases x with
  | nan => cases hx
  | infinite negative => exact clean_of_all (by cases negative <;> decide) hmem
  | finite negative significand scale =>
    obtain hdigit | hother := Binary64.mem_write_finite hmem
    · exact ⟨(inAlphabet_of_isDigit hdigit).1, isBlank_of_isDigit hdigit⟩
    · exact clean_of_all (by decide) hother

theorem solid_write : Solid (x.write Literal.floatStyle) where
  some_char := by
    by_cases hplain : x.InPlainRange
    · exact (formed_floatLexeme hx hplain).solid.some_char
    · obtain ⟨c, hmem, -⟩ := exists_letter hx hplain
      exact List.ne_nil_of_mem hmem
  clean := fun _ hmem => (clean_of_mem_write hx hmem).1
  not_blank := fun _ hmem => (clean_of_mem_write hx hmem).2

end

theorem isWordStart_of_mem_numeral {n : Numeral} (h : n.Proper) {c : Char} (hmem : c ∈ n.text) :
    isWordStart c = false := by
  obtain hdigit | rfl | rfl := h.mem_text hmem
  · exact isWordStart_of_isDigit hdigit
  · rfl
  · rfl

theorem IsFloatText.isWordStart_of_mem {text : List Char} (h : IsFloatText text) {c : Char}
    (hmem : c ∈ text) : isWordStart c = false := by
  obtain ⟨negative, whole, fraction, hwhole, -, hfraction, hsome, rfl⟩ := h
  have hproper : Numeral.Proper ⟨negative, whole, fraction⟩ := ⟨hwhole, hfraction, .inr hsome⟩
  refine isWordStart_of_mem_numeral hproper ?_
  rwa [Numeral.text, Numeral.pointed_of_ne_nil hsome]

/-- A float of the grammar has no letter. -/
theorem Lexeme.Formed.isWordStart_of_mem_float {lexeme : Lexeme} (h : lexeme.Formed)
    (hkind : lexeme.kind = .float) {c : Char} (hmem : c ∈ lexeme.text) : isWordStart c = false := by
  cases h with
  | @float negative whole fraction hwhole hfraction hsome =>
    have hproper : Numeral.Proper ⟨negative, whole, fraction⟩ := ⟨hwhole, hfraction, .inr hsome⟩
    refine isWordStart_of_mem_numeral hproper ?_
    rwa [Numeral.text, Numeral.pointed_of_ne_nil hsome]
  | _ => cases hkind

-- ════════════════════════════════════════════════════════════════════════
-- Reading and listing
-- ════════════════════════════════════════════════════════════════════════

/-- A float that is handed out has a number that rounding has made, and this is listed for it. -/
theorem Token.Made.exists_float {token : Token} (h : token.Made) (hkind : token.kind = .float) :
    ∃ x : Binary64, x.IsRounded ∧ token.literal = .float x ∧
      Listing.payload token = String.ofList (x.write Literal.floatStyle) := by
  cases h with
  | mark origin mark column => cases hkind
  | lexeme placed origin hformed =>
    obtain ⟨column, lexeme⟩ := placed
    cases hformed with
    | float negative hwhole hfraction hsome =>
      exact ⟨_, Binary64.isRounded_ofDecimal _ _, rfl, rfl⟩
    | _ => cases hkind

/-- In the plain range, what is listed for a float is a decimal with digits on both sides of its
    point, and is read as one float with the same number again. Outside of it, what is listed is no
    such decimal, and is not read as one float at all. -/
theorem listing_float {text : String} {file : Option String} {options : Options} {token : Token}
    (h : token ∈ (Lexer.ofText text file options).run.tokens) (hkind : token.kind = .float) :
    ∃ x, token.literal = .float x ∧
      (x.InPlainRange → IsFloatText (Listing.payload token).toList ∧
        ∀ file options, tokenize (Listing.payload token) file options =
          .ok (tokensOfOne ⟨.float, (Listing.payload token).toList, .float x⟩ file options)) ∧
      (¬ x.InPlainRange → ¬ IsFloatText (Listing.payload token).toList ∧
        ∀ file options lexeme, lexeme.kind = .float →
          tokenize (Listing.payload token) file options ≠
            .ok (tokensOfOne lexeme file options)) := by
  obtain ⟨x, hx, hliteral, hpayload⟩ := (made_of_mem_run h).exists_float hkind
  rw [hpayload, String.toList_ofList]
  refine ⟨x, hliteral, fun hplain => ?_, fun hplain => ?_⟩
  · exact ⟨isFloatText_write hx hplain, fun file options =>
      (formed_floatLexeme hx hplain).tokenize_text⟩
  · obtain ⟨c, hmem, hletter⟩ := exists_letter hx hplain
    refine ⟨fun hdecimal => ?_, fun file options lexeme hfloat hread => ?_⟩
    · rw [hdecimal.isWordStart_of_mem hmem] at hletter
      cases hletter
    · obtain ⟨hformed, htext⟩ := (solid_write hx).eq_text hread
      rw [hformed.isWordStart_of_mem_float hfloat (htext ▸ hmem)] at hletter
      cases hletter

theorem listing_float_one_half :
    ∃ token ∈ (Lexer.ofText "-.50").run.tokens, token.kind = .float ∧
      Listing.payload token = "-0.5" ∧ IsFloatText "-0.5".toList ∧
      tokenize "-0.5" = .ok (tokensOfOne ⟨.float, "-0.5".toList, token.literal⟩ none {}) := by
  let half : Token :=
    { kind := .float
      value := "-.50"
      literal := .float (.finite true (2 ^ 52) 1021) }
  have hmem : half ∈ (Lexer.ofText "-.50").run.tokens := by decide +kernel
  have hpayload : Listing.payload half = "-0.5" := by decide +kernel
  obtain ⟨x, hliteral, hplain, -⟩ := listing_float hmem rfl
  obtain rfl : Binary64.finite true (2 ^ 52) 1021 = x := Literal.float.inj hliteral
  obtain ⟨hdecimal, hread⟩ := hplain (by decide +kernel)
  rw [hpayload] at hdecimal hread
  exact ⟨half, hmem, rfl, hpayload, hdecimal, hread none {}⟩

/-- This is the least number above the plain range. What is listed for it is read as an integer, a
    name, an operator and another integer. -/
theorem listing_float_large :
    ∃ token ∈ (Lexer.ofText "10000000000000000.0").run.tokens, token.kind = .float ∧
      Listing.payload token = "1e+16" ∧ ¬ IsFloatText (Listing.payload token).toList ∧
      (tokenize (Listing.payload token)).toOption.map (·.map Token.kind) =
        some [.integer, .identifier, .operator .plus, .integer, .layout .newline] := by
  let large : Token :=
    { kind := .float
      value := "10000000000000000.0"
      literal := .float (.finite false 5000000000000000 1075) }
  have hpayload : Listing.payload large = "1e+16" := by decide +kernel
  refine ⟨large, by decide +kernel, rfl, hpayload, ?_, ?_⟩
  · rw [hpayload]
    intro hdecimal
    have hletter := hdecimal.isWordStart_of_mem (c := 'e') (by decide)
    cases hletter
  · rw [hpayload]
    decide +kernel

end Offside
