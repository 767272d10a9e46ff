import Mathlib.Data.List.Induction
import Mathlib.Tactic.Ring
import Offside.Decimal.Basic
import Offside.Proofs.Lexemes.Grammar

/-!
# The value of digits

A sequence of digits denotes the sum of its digits, each counted by the power of ten of its
place. Zeros in front do not change the value, zeros at the end multiply it by ten, and without
zeros in front there is only one way to write a positive number.
-/

namespace Offside

/-- The number that digits denote: each digit counts the power of ten of its place. -/
def placeValue : List Char → Nat
  | [] => 0
  | digit :: rest => (digit.toNat - '0'.toNat) * 10 ^ rest.length + placeValue rest

theorem ofDigitChars_eq_placeValue (digits : List Char) :
    Nat.ofDigitChars 10 digits 0 = placeValue digits := by
  induction digits with
  | nil => rfl
  | cons digit rest ih =>
    rw [Nat.ofDigitChars_cons, Nat.ofDigitChars_eq_ofDigitChars_zero, ih, placeValue]
    ring

theorem placeValue_append (front back : List Char) :
    placeValue (front ++ back) = placeValue front * 10 ^ back.length + placeValue back := by
  induction front with
  | nil => simp [placeValue]
  | cons digit rest ih =>
    rw [List.cons_append, placeValue, ih, placeValue, List.length_append]
    ring

theorem placeValue_replicate_zero (count : Nat) : placeValue (List.replicate count '0') = 0 := by
  induction count with
  | zero => rfl
  | succ count ih => simp [List.replicate_succ, placeValue, ih]

theorem placeValue_append_zeros (digits : List Char) (count : Nat) :
    placeValue (digits ++ List.replicate count '0') = placeValue digits * 10 ^ count := by
  rw [placeValue_append, placeValue_replicate_zero, List.length_replicate, Nat.add_zero]

theorem placeValue_zeros_append (count : Nat) (digits : List Char) :
    placeValue (List.replicate count '0' ++ digits) = placeValue digits := by
  rw [placeValue_append, placeValue_replicate_zero, Nat.zero_mul, Nat.zero_add]

theorem placeValue_toDigits (n : Nat) : placeValue (Nat.toDigits 10 n) = n := by
  rw [← ofDigitChars_eq_placeValue, Nat.ofDigitChars_ten_toDigits]

theorem allDigits_replicate_zero (count : Nat) : AllDigits (List.replicate count '0') := by
  intro c hmem
  rw [List.eq_of_mem_replicate hmem]
  rfl

theorem allDigits_toDigits (n : Nat) : AllDigits (Nat.toDigits 10 n) := fun _ hmem =>
  Nat.isDigit_of_mem_toDigits (by decide) (by decide) hmem

/-- A digit lies between zero and nine. -/
theorem toNat_of_isDigit {c : Char} (h : c.isDigit = true) : 48 ≤ c.toNat ∧ c.toNat < 58 := by
  obtain ⟨hlow, hhigh⟩ := Bool.and_eq_true_iff.1 h
  have hlow := of_decide_eq_true hlow
  have hhigh := of_decide_eq_true hhigh
  rw [ge_iff_le, UInt32.le_iff_toNat_le] at hlow
  rw [UInt32.le_iff_toNat_le] at hhigh
  exact ⟨hlow, Nat.lt_succ_of_le hhigh⟩

theorem digitChar_of_isDigit {c : Char} (h : c.isDigit = true) :
    Nat.digitChar (c.toNat - '0'.toNat) = c := by
  obtain ⟨hlow, hhigh⟩ := toNat_of_isDigit h
  have hzero : '0'.toNat = 48 := rfl
  apply Char.toNat_inj.1
  rw [hzero, Nat.toNat_digitChar_of_lt_ten (by omega)]
  omega

theorem placeValue_pos {digit : Char} (h : digit.isDigit = true) (hne : digit ≠ '0')
    (rest : List Char) : 0 < placeValue (digit :: rest) := by
  obtain ⟨hlow, -⟩ := toNat_of_isDigit h
  have hzero : '0'.toNat = 48 := rfl
  have hsome : 0 < digit.toNat - '0'.toNat := by
    have : digit.toNat ≠ '0'.toNat := fun heq => hne (Char.toNat_inj.1 heq)
    omega
  have := Nat.mul_pos hsome (Nat.pow_pos (n := rest.length) (by decide : 0 < 10))
  rw [placeValue]
  omega

/-- Digits without a zero in front are the digits of their number. The induction takes them off at
    the end, as the digits of a number are made there. -/
theorem toDigits_placeValue {digits : List Char} (hdigits : AllDigits digits)
    (hsome : digits ≠ []) (hfront : digits.head? ≠ some '0') :
    Nat.toDigits 10 (placeValue digits) = digits := by
  induction digits using List.reverseRecOn with
  | nil => exact absurd rfl hsome
  | append_singleton front digit ih =>
    obtain ⟨hall, hlast⟩ := List.forall_mem_append.1 hdigits
    have hdigit := hlast digit List.mem_cons_self
    have hchar := digitChar_of_isDigit hdigit
    have hzero : '0'.toNat = 48 := rfl
    have hlt : digit.toNat - '0'.toNat < 10 := by
      have := toNat_of_isDigit hdigit
      omega
    have hvalue : placeValue (front ++ [digit]) =
        10 * placeValue front + (digit.toNat - '0'.toNat) := by
      simp [placeValue_append, placeValue]
      ring
    cases front with
    | nil =>
      rw [List.nil_append, placeValue, placeValue, List.length_nil, Nat.pow_zero, Nat.mul_one,
        Nat.add_zero, Nat.toDigits_of_lt_base hlt, hchar]
    | cons first rest =>
      have hpos : 0 < placeValue (first :: rest) :=
        placeValue_pos (hall first List.mem_cons_self) (fun heq => hfront (by rw [heq]; rfl)) rest
      rw [hvalue, ← Nat.toDigits_append_toDigits (by decide) hpos hlt,
        ih hall (List.cons_ne_nil _ _) hfront, Nat.toDigits_of_lt_base hlt, hchar]

/-- Behind the zeros in front stand the digits of the number, or nothing if it is zero. -/
theorem dropWhile_zero {digits : List Char} (hdigits : AllDigits digits) :
    digits.dropWhile (· == '0') =
      if placeValue digits = 0 then [] else Nat.toDigits 10 (placeValue digits) := by
  induction digits with
  | nil => rfl
  | cons digit rest ih =>
    obtain ⟨hdigit, hrest⟩ := List.forall_mem_cons.1 hdigits
    by_cases hzero : digit = '0'
    · subst hzero
      rw [List.dropWhile_cons_of_pos rfl, ih hrest]
      simp [placeValue]
    · have hpos := placeValue_pos hdigit hzero rest
      have hhead : (digit :: rest).head? ≠ some '0' := by simpa using hzero
      rw [List.dropWhile_cons_of_neg (by simpa using hzero), if_neg (by omega),
        toDigits_placeValue hdigits (List.cons_ne_nil _ _) hhead]

/-- The digits of a positive number do not begin with a zero. -/
theorem head?_toDigits_ne_zero {n : Nat} (h : n ≠ 0) : (Nat.toDigits 10 n).head? ≠ some '0' := by
  have hdrop := dropWhile_zero (allDigits_toDigits n)
  rw [placeValue_toDigits, if_neg h] at hdrop
  have hhead := List.head?_dropWhile_not (· == '0') (Nat.toDigits 10 n)
  rw [hdrop] at hhead
  intro hzero
  rw [hzero] at hhead
  cases hhead

theorem AllDigits.head?_ne_minus {digits : List Char} (h : AllDigits digits) :
    digits.head? ≠ some '-' := by
  intro hhead
  have hdigit := h '-' (List.mem_of_head? hhead)
  cases hdigit

namespace Binary64

theorem head?_writeSign_append_iff {text : List Char} (h : text.head? ≠ some '-')
    (negative : Bool) : (writeSign negative ++ text).head? = some '-' ↔ negative = true := by
  cases negative with
  | true => exact iff_of_true rfl rfl
  | false => exact iff_of_false h Bool.false_ne_true

/-- A sign in front of what has none can be told from it. -/
theorem writeSign_append_inj {negative negative' : Bool} {text text' : List Char}
    (h : text.head? ≠ some '-') (h' : text'.head? ≠ some '-')
    (heq : writeSign negative ++ text = writeSign negative' ++ text') :
    negative = negative' ∧ text = text' := by
  obtain rfl : negative = negative' := by
    rw [Bool.eq_iff_iff, ← head?_writeSign_append_iff h, heq, head?_writeSign_append_iff h']
  exact ⟨rfl, List.append_cancel_left heq⟩

end Binary64

end Offside
