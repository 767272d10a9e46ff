import Mathlib.Data.List.TakeWhile
import Offside.Content

/-!
# The grammar of lexemes

What the lexemes are can be said without reading any text: words, whole numbers, floats, and
the operators. `Lexeme.Formed` lists them, each with the kind of token it makes and the value
it denotes.
-/

namespace Offside

/-- A word is a letter or an underscore, and behind it letters, digits and underscores. -/
def IsWord : List Char → Prop
  | [] => False
  | c :: rest =>
    (c.isAlpha = true ∨ c = '_') ∧ ∀ d ∈ rest, d.isAlphanum = true ∨ d = '_'

instance : DecidablePred IsWord
  | [] => .isFalse id
  | _ :: rest =>
    have : Decidable (∀ d ∈ rest, d.isAlphanum = true ∨ d = '_') := List.decidableBAll _ rest
    inferInstanceAs (Decidable (_ ∧ _))

def AllDigits (text : List Char) : Prop :=
  ∀ c ∈ text, c.isDigit = true

/-- The lexemes of the grammar. A word is a keyword or a truth value if it is spelled like one,
    and a name otherwise. A number may have a minus sign in front; a float has digits behind
    its point, but need not have any before it. -/
inductive Lexeme.Formed : Lexeme → Prop where
  | keyword (word : Keyword) : Formed ⟨.keyword word, word.text.toList, .absent⟩
  | trueWord : Formed ⟨.boolean, "True".toList, .boolean true⟩
  | falseWord : Formed ⟨.boolean, "False".toList, .boolean false⟩
  | name {word : List Char} (hword : IsWord word)
      (hkeyword : ∀ keyword : Keyword, word ≠ keyword.text.toList)
      (htrue : word ≠ "True".toList) (hfalse : word ≠ "False".toList) :
      Formed ⟨.identifier, word, .absent⟩
  | integer (negative : Bool) {digits : List Char} (hdigits : AllDigits digits)
      (hsome : digits ≠ []) :
      Formed ⟨.integer, Binary64.writeSign negative ++ digits,
        .integer (Numeral.integer ⟨negative, digits, []⟩)⟩
  | float (negative : Bool) {whole fraction : List Char} (hwhole : AllDigits whole)
      (hfraction : AllDigits fraction) (hsome : fraction ≠ []) :
      Formed ⟨.float, Binary64.writeSign negative ++ whole ++ '.' :: fraction,
        .float (Numeral.float ⟨negative, whole, fraction⟩)⟩
  | operator (op : Operator) : Formed ⟨.operator op, op.text.toList, .absent⟩

/-- A numeral of digits, with at least one of them. -/
structure Numeral.Proper (n : Numeral) : Prop where
  whole : AllDigits n.whole
  fraction : AllDigits n.fraction
  some_digit : n.whole ≠ [] ∨ n.fraction ≠ []

namespace Lexeme

theorem isWord_cons {c : Char} {rest : List Char} :
    IsWord (c :: rest) ↔ isWordStart c = true ∧ ∀ d ∈ rest, isWordChar d = true := by
  simp only [IsWord, isWordStart, isWordChar, Char.isAlphanum, Bool.or_eq_true, beq_iff_eq]
  refine and_congr_right fun _ => forall₂_congr fun d _ => ?_
  constructor
  · rintro ((h | h) | h) <;> simp [h]
  · rintro ((h | h) | h) <;> simp [h]

theorem ofWord_keyword (keyword : Keyword) :
    ofWord keyword.text.toList = ⟨.keyword keyword, keyword.text.toList, .absent⟩ := by
  cases keyword <;> decide +kernel

/-- A word that is neither a keyword nor a truth value is a name. -/
theorem ofWord_of_ne {word : List Char} (hkeyword : ∀ keyword : Keyword, word ≠ keyword.text.toList)
    (htrue : word ≠ "True".toList) (hfalse : word ≠ "False".toList) :
    ofWord word = ⟨.identifier, word, .absent⟩ := by
  have hne {text : String} (h : word ≠ text.toList) : String.ofList word ≠ text := by
    rintro rfl
    exact h String.toList_ofList.symm
  have hnone : Keyword.ofText? (String.ofList word) = none := by
    rw [Keyword.ofText?, List.find?_eq_none]
    intro keyword _
    simpa [eq_comm] using hne (hkeyword keyword)
  have hlookup : booleanWords.lookup (String.ofList word) = none := by
    simp only [booleanWords, List.lookup_cons, beq_eq_false_iff_ne.2 (hne htrue),
      beq_eq_false_iff_ne.2 (hne hfalse), List.lookup_nil]
  simp only [ofWord, hnone, hlookup]

theorem Formed.of_word {word : List Char} (h : IsWord word) : Formed (ofWord word) := by
  by_cases hkeyword : ∃ keyword : Keyword, word = keyword.text.toList
  · obtain ⟨keyword, rfl⟩ := hkeyword
    rw [ofWord_keyword]
    exact .keyword keyword
  · by_cases htrue : word = "True".toList
    · rw [htrue]
      exact .trueWord
    · by_cases hfalse : word = "False".toList
      · rw [hfalse]
        exact .falseWord
      · have hother := not_exists.1 hkeyword
        rw [ofWord_of_ne hother htrue hfalse]
        exact .name h hother htrue hfalse

theorem Formed.of_numeral {n : Numeral} (hn : n.Proper) {lexeme : Lexeme}
    (h : ofNumeral? n = some lexeme) : Formed lexeme := by
  obtain ⟨negative, whole, fraction⟩ := n
  obtain ⟨hfraction, rfl⟩ | ⟨hnone, hwhole, rfl⟩ := ofNumeral?_cases h
  · obtain ⟨digit, rest, rfl⟩ := List.exists_cons_of_ne_nil hfraction
    exact .float negative hn.whole hn.fraction hfraction
  · obtain rfl : fraction = [] := hnone
    simpa [Numeral.text, Numeral.pointed] using Formed.integer negative hn.whole hwhole

/-- The lexemes of the grammar by sorts: the words, the numbers and the operators. -/
theorem formed_iff {lexeme : Lexeme} :
    lexeme.Formed ↔ (∃ word, IsWord word ∧ ofWord word = lexeme) ∨
      (∃ n : Numeral, n.Proper ∧ ofNumeral? n = some lexeme) ∨ ∃ op, ofOperator op = lexeme := by
  constructor
  · rintro (keyword | - | - | ⟨hword, hkeyword, htrue, hfalse⟩ | ⟨negative, hdigits, hsome⟩ |
      ⟨negative, hwhole, hfraction, hsome⟩ | op)
    · exact .inl ⟨_, by cases keyword <;> decide +kernel, ofWord_keyword keyword⟩
    · exact .inl ⟨"True".toList, by decide +kernel, by decide +kernel⟩
    · exact .inl ⟨"False".toList, by decide +kernel, by decide +kernel⟩
    · exact .inl ⟨_, hword, ofWord_of_ne hkeyword htrue hfalse⟩
    · refine .inr (.inl ⟨⟨negative, _, []⟩, ⟨hdigits, by simp [AllDigits], .inl hsome⟩, ?_⟩)
      simp [ofNumeral?, hsome, Numeral.text, Numeral.pointed]
    · refine .inr (.inl ⟨⟨negative, _, _⟩, ⟨hwhole, hfraction, .inr hsome⟩, ?_⟩)
      obtain ⟨digit, rest, rfl⟩ := List.exists_cons_of_ne_nil hsome
      simp [ofNumeral?, Numeral.text, Numeral.pointed]
    · exact .inr (.inr ⟨op, rfl⟩)
  · rintro (⟨word, hword, rfl⟩ | ⟨n, hn, hlexeme⟩ | ⟨op, rfl⟩)
    · exact .of_word hword
    · exact .of_numeral hn hlexeme
    · exact .operator op

theorem proper_ofUnsigned {negative : Bool} {text : List Char}
    (h : (Numeral.ofUnsigned negative text).whole ≠ [] ∨
      (Numeral.ofUnsigned negative text).fraction ≠ []) :
    (Numeral.ofUnsigned negative text).Proper where
  whole := fun _ hmem => List.mem_takeWhile_imp hmem
  fraction := by
    intro c hmem
    simp only [Numeral.ofUnsigned] at hmem
    unfold Numeral.fractionOf at hmem
    split at hmem
    · exact List.mem_takeWhile_imp hmem
    · cases hmem
  some_digit := h

theorem ofNumeral?_eq_some {n : Numeral} {lexeme : Lexeme} (h : ofNumeral? n = some lexeme) :
    n.whole ≠ [] ∨ n.fraction ≠ [] := by
  obtain ⟨hfraction, -⟩ | ⟨-, hwhole, -⟩ := ofNumeral?_cases h
  · exact .inr hfraction
  · exact .inl hwhole

/-- What is read is a lexeme of the grammar. -/
theorem formed_of_read? {text : List Char} {lexeme : Lexeme} (h : read? text = some lexeme) :
    lexeme.Formed := by
  obtain ⟨c, rest, -, hstart, rfl⟩ | hnumber | ⟨op, -, rfl⟩ := read?_cases h
  · exact .of_word (isWord_cons.2 ⟨hstart, fun _ hmem => List.mem_takeWhile_imp hmem⟩)
  · have hdigit := ofNumeral?_eq_some hnumber
    refine .of_numeral ?_ hnumber
    unfold Numeral.ofText at hdigit ⊢
    split at hdigit <;> exact proper_ofUnsigned hdigit
  · exact .operator op

end Lexeme

end Offside
