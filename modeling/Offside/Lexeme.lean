import Offside.Alphabet
import Offside.Token.Literal

/-!
# Lexemes

A lexeme is a word, a number or an operator at the head of a text, with the kind
of token it makes and the value it denotes. Each sort of lexeme is as long as it
can be.
-/

namespace Offside

/-- A piece of text with the kind of token it makes. -/
structure Lexeme where
  kind : Kind
  text : List Char
  literal : Literal := .absent
deriving DecidableEq, Repr

/-- The words for the truth values. -/
def booleanWords : List (String × Bool) :=
  [("True", true), ("False", false)]

/-- A number as it is written: a sign, the digits before the point and those behind it.
    Without digits behind the point there is no point either. -/
structure Numeral where
  negative : Bool
  whole : List Char
  fraction : List Char
deriving DecidableEq, Repr

namespace Numeral

def fractionOf : List Char → List Char
  | '.' :: rest => rest.takeWhile Char.isDigit
  | _ => []

def ofUnsigned (negative : Bool) (text : List Char) : Numeral where
  negative := negative
  whole := text.takeWhile Char.isDigit
  fraction := fractionOf (text.dropWhile Char.isDigit)

/-- The numeral at the head of a text. It has no digits at all when no number starts
    there. -/
def ofText : List Char → Numeral
  | '-' :: rest => ofUnsigned true rest
  | text => ofUnsigned false text

def pointed : List Char → List Char
  | [] => []
  | digits => '.' :: digits

def text (n : Numeral) : List Char :=
  Binary64.writeSign n.negative ++ n.whole ++ pointed n.fraction

/-- The whole number that the sign and the digits before the point denote. -/
def integer (n : Numeral) : Int :=
  let magnitude := Nat.ofDigitChars 10 n.whole 0
  if n.negative then -magnitude else magnitude

/-- The digits on both sides of the point as a decimal. -/
def decimal (n : Numeral) : Decimal where
  digits := Nat.ofDigitChars 10 (n.whole ++ n.fraction) 0
  exponent := -n.fraction.length

/-- The binary64 number nearest to what is written. -/
def float (n : Numeral) : Binary64 :=
  Binary64.ofDecimal n.negative n.decimal

end Numeral

namespace Lexeme

-- ════════════════════════════════════════════════════════════════════════
-- The three sorts
-- ════════════════════════════════════════════════════════════════════════

/-- The lexeme that a whole word makes: a keyword, a truth value or a name. -/
def ofWord (word : List Char) : Lexeme :=
  match Keyword.ofText? (String.ofList word) with
  | some keyword => ⟨.keyword keyword, word, .absent⟩
  | none =>
    match booleanWords.lookup (String.ofList word) with
    | some value => ⟨.boolean, word, .boolean value⟩
    | none => ⟨.identifier, word, .absent⟩

/-- The lexeme that a numeral makes: a float with digits behind the point, an integer
    without, and nothing if there are no digits. -/
def ofNumeral? (n : Numeral) : Option Lexeme :=
  if n.fraction ≠ [] then some ⟨.float, n.text, .float n.float⟩
  else if n.whole ≠ [] then some ⟨.integer, n.text, .integer n.integer⟩
  else none

def ofOperator (op : Operator) : Lexeme :=
  ⟨.operator op, op.text.toList, .absent⟩

/-- The longest word at the head of a text. -/
def word? : List Char → Option Lexeme
  | [] => none
  | c :: rest =>
    if isWordStart c then some (ofWord (c :: rest.takeWhile isWordChar)) else none

/-- The longest number at the head of a text. A minus sign directly before the digits
    belongs to it; a point only with a digit behind it. -/
def number? (text : List Char) : Option Lexeme :=
  ofNumeral? (Numeral.ofText text)

/-- The longest operator at the head of a text: those of two characters come first. -/
def operator? (text : List Char) : Option Lexeme :=
  ((Operator.doubles ++ Operator.singles).find? fun op => op.text.toList.isPrefixOf text).map
    ofOperator

/-- The lexeme at the head of a text. Numbers come before operators, so that a minus sign
    before digits belongs to the number. -/
def read? (text : List Char) : Option Lexeme :=
  (word? text).or ((number? text).or (operator? text))

-- ════════════════════════════════════════════════════════════════════════
-- Lexemes and the text they are read from
-- ════════════════════════════════════════════════════════════════════════

@[simp] theorem text_ofWord (word : List Char) : (ofWord word).text = word := by
  simp only [ofWord]
  repeat' split
  all_goals rfl

/-- A numeral makes a float when there are digits behind its point, and an integer when there
    are only digits before it. -/
theorem ofNumeral?_cases {n : Numeral} {l : Lexeme} (h : ofNumeral? n = some l) :
    (n.fraction ≠ [] ∧ l = ⟨.float, n.text, .float n.float⟩) ∨
      (n.fraction = [] ∧ n.whole ≠ [] ∧ l = ⟨.integer, n.text, .integer n.integer⟩) := by
  simp only [ofNumeral?] at h
  split at h
  · next hfraction => exact .inl ⟨hfraction, (Option.some.inj h).symm⟩
  · next hfraction =>
    split at h
    · next hwhole =>
      exact .inr ⟨Decidable.not_not.1 hfraction, hwhole, (Option.some.inj h).symm⟩
    · cases h

/-- What is read is a word up to its end, the numeral at the head of the text, or an operator
    that stands there. -/
theorem read?_cases {text : List Char} {l : Lexeme} (h : read? text = some l) :
    (∃ c rest, text = c :: rest ∧ isWordStart c = true ∧
      l = ofWord (c :: rest.takeWhile isWordChar)) ∨
    ofNumeral? (Numeral.ofText text) = some l ∨
    ∃ op : Operator, op.text.toList <+: text ∧ l = ofOperator op := by
  simp only [read?, Option.or_eq_some_iff] at h
  rcases h with hword | ⟨-, hnumber | ⟨-, hoperator⟩⟩
  · cases text with
    | nil => cases hword
    | cons c rest =>
      simp only [word?, Option.ite_none_right_eq_some, Option.some.injEq] at hword
      exact .inl ⟨c, rest, rfl, hword.1, hword.2.symm⟩
  · exact .inr (.inl hnumber)
  · simp only [operator?, Option.map_eq_some_iff] at hoperator
    obtain ⟨op, hfind, rfl⟩ := hoperator
    have hstarts := List.find?_some hfind
    exact .inr (.inr ⟨op, List.isPrefixOf_iff_prefix.1 hstarts, rfl⟩)

theorem text_ne_nil_of_digits {n : Numeral} (h : n.fraction ≠ [] ∨ n.whole ≠ []) :
    n.text ≠ [] := by
  simp only [Numeral.text, ne_eq, List.append_eq_nil_iff, not_and]
  rintro ⟨-, hwhole⟩ hfraction
  rcases h with h | h
  · cases hdigits : n.fraction with
    | nil => exact h hdigits
    | cons d rest => simp [hdigits, Numeral.pointed] at hfraction
  · exact h hwhole

/-- A lexeme made from a numeral has its text, which is not empty. -/
theorem text_of_ofNumeral? {n : Numeral} {l : Lexeme} (h : ofNumeral? n = some l) :
    l.text = n.text ∧ l.text ≠ [] := by
  obtain ⟨hfraction, rfl⟩ | ⟨-, hwhole, rfl⟩ := ofNumeral?_cases h
  · exact ⟨rfl, text_ne_nil_of_digits (.inl hfraction)⟩
  · exact ⟨rfl, text_ne_nil_of_digits (.inr hwhole)⟩

/-- The digits behind a point, with the point, start the text they are read from. -/
theorem pointed_fractionOf_isPrefix (text : List Char) :
    Numeral.pointed (Numeral.fractionOf text) <+: text := by
  cases text with
  | nil => exact List.nil_prefix
  | cons c rest =>
    by_cases hc : c = '.'
    · subst hc
      cases hdigits : rest.takeWhile Char.isDigit with
      | nil => simp [Numeral.fractionOf, hdigits, Numeral.pointed]
      | cons d digits =>
        have h := rest.takeWhile_prefix Char.isDigit
        rw [hdigits] at h
        simpa [Numeral.fractionOf, hdigits, Numeral.pointed] using h
    · simp [Numeral.fractionOf, hc, Numeral.pointed]

/-- The numeral read from a text starts it. -/
theorem text_ofText_isPrefix (text : List Char) : (Numeral.ofText text).text <+: text := by
  have hbody (body : List Char) :
      body.takeWhile Char.isDigit ++
        Numeral.pointed (Numeral.fractionOf (body.dropWhile Char.isDigit)) <+: body := by
    have h := (List.prefix_append_right_inj (body.takeWhile Char.isDigit)).2
      (pointed_fractionOf_isPrefix (body.dropWhile Char.isDigit))
    rwa [List.takeWhile_append_dropWhile] at h
  unfold Numeral.ofText
  split
  · exact (List.prefix_cons_inj '-').2 (hbody _)
  · exact hbody _

/-- A lexeme is never empty. -/
theorem text_ne_nil_of_read? {text : List Char} {l : Lexeme} (h : read? text = some l) :
    l.text ≠ [] := by
  obtain ⟨c, rest, -, -, rfl⟩ | hnumber | ⟨op, -, rfl⟩ := read?_cases h
  · rw [text_ofWord]
    exact List.cons_ne_nil _ _
  · exact (text_of_ofNumeral? hnumber).2
  · cases op <;> decide

/-- A lexeme stands at the head of the text it is read from. -/
theorem text_isPrefix_of_read? {text : List Char} {l : Lexeme} (h : read? text = some l) :
    l.text <+: text := by
  obtain ⟨c, rest, rfl, -, rfl⟩ | hnumber | ⟨op, hstarts, rfl⟩ := read?_cases h
  · rw [text_ofWord]
    exact (List.prefix_cons_inj c).2 (rest.takeWhile_prefix isWordChar)
  · rw [(text_of_ofNumeral? hnumber).1]
    exact text_ofText_isPrefix text
  · exact hstarts

/-- A lexeme and what follows it make up the text. -/
theorem text_append_of_read? {text : List Char} {l : Lexeme} (h : read? text = some l) :
    l.text ++ text.drop l.text.length = text := by
  obtain ⟨rest, rfl⟩ := text_isPrefix_of_read? h
  rw [List.drop_left]

/-- What follows a lexeme is shorter than the text, so reading lexeme by lexeme ends. -/
theorem length_drop_lt_of_read? {text : List Char} {l : Lexeme} (h : read? text = some l) :
    (text.drop l.text.length).length < text.length := by
  have hpos := List.length_pos_iff.2 (text_ne_nil_of_read? h)
  have hle := (text_isPrefix_of_read? h).length_le
  rw [List.length_drop]
  omega

example : (read? "-5.x".toList).map (·.text) = some "-5".toList ∧
    (read? "-.5.6".toList).map (·.text) = some "-.5".toList ∧
    (read? "===".toList).map (·.kind) = some (.operator .equal) ∧ read? "!".toList = none := by
  decide +kernel

end Lexeme

end Offside
