import Offside.Listing
import Offside.Proofs.Numbers.Digits
import Offside.Proofs.Reading.SingleLine

/-!
# Integers in listings

The value of an integer is computed from its digits, while a listing only takes characters away
from its text. Both come to the same: what is listed is the shortest text of the value. It is read
as an integer of this value again, and it is the same for two integers just when their values are.
-/

namespace Offside

/-- The text of an integer: digits, perhaps with a minus sign in front. -/
def IsIntegerText (text : List Char) : Prop :=
  ∃ negative digits, AllDigits digits ∧ digits ≠ [] ∧
    text = Binary64.writeSign negative ++ digits

/-- The whole number that the text of an integer denotes, by the place values of its digits. -/
def denoted : List Char → Int
  | '-' :: digits => -(placeValue digits : Int)
  | digits => placeValue digits

/-- The shortest text of a whole number. -/
def integerText (value : Int) : List Char :=
  Binary64.writeSign (value < 0) ++ Nat.toDigits 10 value.natAbs

/-- The lexeme that the text of an integer makes. -/
def integerLexeme (text : List Char) : Lexeme :=
  ⟨.integer, text, .integer (denoted text)⟩

/-- A text of an integer that is shorter than all other texts of the same number. It has a sign
    only for a negative number, and begins with a zero only if it is just that. -/
structure IsShortestText (value : Int) (text : List Char) : Prop where
  isIntegerText : IsIntegerText text
  denoted_eq : denoted text = value
  length_lt : ∀ other, IsIntegerText other → denoted other = value → other ≠ text →
    text.length < other.length
  sign_iff : text.head? = some '-' ↔ value < 0
  zero_front : (text.dropWhile (· == '-')).head? = some '0' → text = ['0']

/-- What does not go on a number: it begins neither with a digit nor with a point and a digit. -/
structure EndsNumber (back : List Char) : Prop where
  no_digit : ∀ c ∈ back.head?, c.isDigit = false
  no_fraction : ∀ d rest, back = '.' :: d :: rest → d.isDigit = false

section

variable {digits : List Char} (hdigits : AllDigits digits)
include hdigits

theorem denoted_append (negative : Bool) :
    denoted (Binary64.writeSign negative ++ digits) =
      if negative then -(placeValue digits : Int) else placeValue digits := by
  cases negative with
  | true => rfl
  | false =>
    rw [Binary64.writeSign, if_neg Bool.false_ne_true, if_neg Bool.false_ne_true,
      List.nil_append, denoted]
    rintro rest rfl
    exact hdigits.head?_ne_minus rfl

theorem dropWhile_minus (negative : Bool) :
    (Binary64.writeSign negative ++ digits).dropWhile (· == '-') = digits := by
  have hkept : digits.dropWhile (· == '-') = digits := by
    cases digits with
    | nil => rfl
    | cons digit rest =>
      have hne := hdigits.head?_ne_minus
      rw [List.dropWhile_cons_of_neg (by simpa using hne)]
  cases negative with
  | true => exact hkept
  | false => exact hkept

/-- Digits are zeros and behind them the digits of their number. -/
theorem exists_eq_zeros_append :
    ∃ count, digits = List.replicate count '0' ++
      if placeValue digits = 0 then [] else Nat.toDigits 10 (placeValue digits) := by
  have hzeros : digits.takeWhile (· == '0') = List.replicate _ '0' :=
    List.eq_replicate_of_mem fun c hmem =>
      eq_of_beq (List.mem_takeWhile_imp (p := (· == '0')) hmem)
  refine ⟨(digits.takeWhile (· == '0')).length, ?_⟩
  rw [← hzeros, ← dropWhile_zero hdigits, List.takeWhile_append_dropWhile]

end

theorem isIntegerText_integerText (value : Int) : IsIntegerText (integerText value) :=
  ⟨_, _, allDigits_toDigits _, Nat.toDigits_ne_nil, rfl⟩

theorem denoted_integerText (value : Int) : denoted (integerText value) = value := by
  rw [integerText, denoted_append (allDigits_toDigits _), placeValue_toDigits]
  split
  · next h =>
    have hneg := of_decide_eq_true h
    omega
  · next h =>
    have hpos := mt decide_eq_true h
    omega

theorem integerText_inj {value other : Int} :
    integerText value = integerText other ↔ value = other := by
  refine ⟨fun h => ?_, congrArg integerText⟩
  rw [← denoted_integerText value, h, denoted_integerText]

theorem toList_toString_int (value : Int) : (toString value).toList = integerText value := by
  rw [Int.toString_eq_repr, Int.repr_eq_if, integerText]
  split
  · next h =>
    have habs : value.toNat = value.natAbs := by omega
    rw [habs, Nat.repr_eq_ofList_toDigits, String.toList_ofList, decide_eq_false (by omega)]
    rfl
  · next h =>
    have habs : (-value).toNat = value.natAbs := by omega
    rw [habs, Nat.repr_eq_ofList_toDigits, String.toList_append, String.toList_ofList,
      String.toList_ofList, decide_eq_true (by omega)]
    rfl

/-- The shortest text of a number other than zero, by its sign and its magnitude. -/
theorem integerText_signed (negative : Bool) {n : Nat} (h : n ≠ 0) :
    integerText (if negative then -(n : Int) else n) =
      Binary64.writeSign negative ++ Nat.toDigits 10 n := by
  cases negative with
  | true =>
    rw [if_pos rfl, integerText, decide_eq_true (by omega), Int.natAbs_neg, Int.natAbs_natCast]
  | false =>
    rw [if_neg Bool.false_ne_true, integerText, decide_eq_false (by omega), Int.natAbs_natCast]

/-- Shortening the text of an integer comes to the shortest text of its number. -/
theorem shortInteger_eq {text : List Char} (h : IsIntegerText text) :
    Listing.shortInteger text = integerText (denoted text) := by
  obtain ⟨negative, digits, hdigits, -, rfl⟩ := h
  rw [denoted_append hdigits]
  have hsign := Binary64.head?_writeSign_append_iff hdigits.head?_ne_minus negative
  simp only [Listing.shortInteger, dropWhile_minus hdigits, dropWhile_zero hdigits, hsign]
  by_cases hzero : placeValue digits = 0
  · rw [if_pos hzero, if_pos rfl, hzero]
    cases negative <;> rfl
  · rw [if_neg hzero, if_neg Nat.toDigits_ne_nil, integerText_signed negative hzero]
    cases negative <;> rfl

/-- No other text of the same number is as short: it has a zero too many, or the sign of a zero. -/
theorem length_integerText_lt {text : List Char} (h : IsIntegerText text)
    (hne : text ≠ integerText (denoted text)) :
    (integerText (denoted text)).length < text.length := by
  obtain ⟨negative, digits, hdigits, hsome, rfl⟩ := h
  rw [denoted_append hdigits] at hne ⊢
  obtain ⟨count, hcount⟩ := exists_eq_zeros_append hdigits
  by_cases hzero : placeValue digits = 0
  · rw [if_pos hzero, List.append_nil] at hcount
    have htext : integerText (if negative then -(placeValue digits : Int) else placeValue digits) =
        ['0'] := by
      rw [hzero]
      cases negative <;> rfl
    rw [htext] at hne ⊢
    have hcount_ne : count ≠ 0 := by
      rintro rfl
      exact hsome hcount
    obtain rfl | hmore := Nat.eq_or_lt_of_le (Nat.one_le_iff_ne_zero.2 hcount_ne)
    · cases negative with
      | true =>
        rw [hcount]
        decide
      | false => exact absurd hcount hne
    · rw [List.length_append, hcount, List.length_replicate]
      exact Nat.lt_add_left _ hmore
  · rw [if_neg hzero] at hcount
    rw [integerText_signed negative hzero] at hne ⊢
    cases count with
    | zero => exact absurd (congrArg _ hcount) hne
    | succ count =>
      have hlength := congrArg List.length hcount
      rw [List.length_append, List.length_replicate] at hlength
      rw [List.length_append, List.length_append]
      omega

theorem isShortestText_integerText (value : Int) :
    IsShortestText value (integerText value) where
  isIntegerText := isIntegerText_integerText value
  denoted_eq := denoted_integerText value
  length_lt := by
    rintro other hother rfl hne
    exact length_integerText_lt hother hne
  sign_iff := by
    rw [integerText, Binary64.head?_writeSign_append_iff (allDigits_toDigits _).head?_ne_minus,
      decide_eq_true_eq]
  zero_front := by
    rw [integerText, dropWhile_minus (allDigits_toDigits _)]
    intro hfront
    have hzero : value.natAbs = 0 := by
      by_contra hne
      exact head?_toDigits_ne_zero hne hfront
    rw [Int.natAbs_eq_zero.1 hzero]
    rfl

theorem formed_integerLexeme {text : List Char} (h : IsIntegerText text) :
    (integerLexeme text).Formed := by
  obtain ⟨negative, digits, hdigits, hsome, rfl⟩ := h
  have hvalue : denoted (Binary64.writeSign negative ++ digits) =
      Numeral.integer ⟨negative, digits, []⟩ := by
    rw [denoted_append hdigits, Numeral.integer, ofDigitChars_eq_placeValue]
  rw [integerLexeme, hvalue]
  exact .integer negative hdigits hsome

theorem exists_eq_integerLexeme {lexeme : Lexeme} (h : lexeme.Formed)
    (hkind : lexeme.kind = .integer) :
    ∃ text, IsIntegerText text ∧ lexeme = integerLexeme text := by
  cases h with
  | integer negative hdigits hsome =>
    refine ⟨_, ⟨negative, _, hdigits, hsome, rfl⟩, ?_⟩
    rw [integerLexeme, denoted_append hdigits, Numeral.integer, ofDigitChars_eq_placeValue]
  | _ => cases hkind

theorem number?_append {text back : List Char} (h : IsIntegerText text) (hback : EndsNumber back) :
    Lexeme.number? (text ++ back) = some (integerLexeme text) := by
  obtain ⟨negative, digits, hdigits, hsome, rfl⟩ := h
  have hproper : Numeral.Proper ⟨negative, digits, []⟩ :=
    ⟨hdigits, List.forall_mem_nil _, .inl hsome⟩
  have hbehind : back.takeWhile Char.isDigit = [] ∧ back.dropWhile Char.isDigit = back := by
    cases back with
    | nil => exact ⟨rfl, rfl⟩
    | cons c rest =>
      have hc := hback.no_digit c rfl
      exact ⟨List.takeWhile_cons_of_neg (by simp [hc]), List.dropWhile_cons_of_neg (by simp [hc])⟩
  have hfraction : Numeral.fractionOf back = [] := by
    unfold Numeral.fractionOf
    split
    · next rest =>
      cases rest with
      | nil => rfl
      | cons d rest => rw [List.takeWhile_cons_of_neg (by simp [hback.no_fraction d rest rfl])]
    · rfl
  have hread : Numeral.ofText (Binary64.writeSign negative ++ digits ++ back) =
      ⟨negative, digits, []⟩ := by
    have happend := hproper.ofText_append back
    rw [Numeral.pointed, List.nil_append, Numeral.ofUnsigned_append hdigits, hbehind.1, hbehind.2,
      hfraction, List.append_nil] at happend
    simpa [Numeral.text, Numeral.pointed] using happend
  rw [Lexeme.number?, hread, Lexeme.ofNumeral?, if_neg (not_not.2 rfl), if_pos hsome,
    integerLexeme, denoted_append hdigits, Numeral.integer, ofDigitChars_eq_placeValue]
  simp [Numeral.text, Numeral.pointed]

/-- What is listed for an integer is the shortest text of its value. -/
theorem payload_integer {text : List Char} (h : IsIntegerText text) {placed : Placed}
    (hplaced : placed.lexeme = integerLexeme text) (origin : Origin) :
    Listing.payload (placed.token origin) = String.ofList (integerText (denoted text)) := by
  obtain ⟨column, lexeme⟩ := placed
  cases hplaced
  rw [← shortInteger_eq h, Listing.payload, Placed.token, String.toList_ofList]

/-- Wherever the text of an integer stands and is not gone on with, it is read as the integer that
    its digits denote by their place values. What is listed for it is the shortest text of this
    value, in the form of `toString`. That text is read as one integer of the same value again, and
    it is listed for another integer just when the values are equal. -/
theorem listing_integer {text back : List Char} (h : IsIntegerText text)
    (hback : EndsNumber back) (front : List Char) (origin : Origin) :
    ∃ placed : Placed,
      Content.lexemeAt .number (front ++ text ++ back) front.length = .ok (some placed) ∧
      placed.lexeme = ⟨.integer, text, .integer (denoted text)⟩ ∧
      Listing.payload (placed.token origin) = toString (denoted text) ∧
      IsShortestText (denoted text) (Listing.payload (placed.token origin)).toList ∧
      (∀ file options, tokenize (Listing.payload (placed.token origin)) file options =
        .ok (tokensOfOne ⟨.integer, (Listing.payload (placed.token origin)).toList,
          .integer (denoted text)⟩ file options)) ∧
      ∀ (other : Placed) (place : Origin), other.lexeme.Formed → other.lexeme.kind = .integer →
        (Listing.payload (other.token place) = Listing.payload (placed.token origin) ↔
          other.lexeme.literal = placed.lexeme.literal) := by
  refine ⟨⟨front.length + 1, integerLexeme text⟩, ?_, rfl, ?_⟩
  · rw [Content.lexemeAt, List.append_assoc, List.drop_left, number?_append h hback]
    rfl
  rw [payload_integer h rfl, String.toList_ofList]
  refine ⟨?_, isShortestText_integerText _, ?_, ?_⟩
  · rw [← toList_toString_int, String.ofList_toList]
  · intro file options
    have hformed := formed_integerLexeme (isIntegerText_integerText (denoted text))
    rw [integerLexeme, denoted_integerText] at hformed
    exact hformed.tokenize_text
  · intro other place hformed hkind
    obtain ⟨text', htext', heq⟩ := exists_eq_integerLexeme hformed hkind
    rw [payload_integer htext' heq, String.ofList_inj, integerText_inj, heq]
    exact (Literal.integer.injEq _ _).symm ▸ Iff.rfl

theorem listing_integer_minus_zeros :
    IsIntegerText "-007".toList ∧ EndsNumber " + 1".toList ∧
      ∃ placed, Content.lexemeAt .number "x = -007 + 1".toList 4 = .ok (some placed) ∧
        placed.lexeme.literal = .integer (-7) ∧ Listing.payload (placed.token {}) = "-7" ∧
        tokenize "-7" = .ok (tokensOfOne ⟨.integer, "-7".toList, .integer (-7)⟩ none {}) := by
  have htext : IsIntegerText "-007".toList :=
    ⟨true, "007".toList, by simp [AllDigits], by decide, rfl⟩
  have hback : EndsNumber " + 1".toList := by
    refine ⟨?_, by rintro d rest ⟨⟩⟩
    rintro c ⟨⟩
    rfl
  obtain ⟨placed, hat, hlexeme, hpayload, -, hread, -⟩ :=
    listing_integer htext hback "x = ".toList {}
  have hvalue : denoted "-007".toList = -7 := rfl
  have hshort : Listing.payload (placed.token {}) = "-7" := hpayload
  have hagain := hread none {}
  rw [hshort, hvalue] at hagain
  refine ⟨htext, hback, placed, hat, ?_, hshort, hagain⟩
  rw [hlexeme, hvalue]

end Offside
