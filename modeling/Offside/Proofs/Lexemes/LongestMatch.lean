import Offside.Proofs.Lexemes.Grammar

/-!
# Longest match

The lexeme at the head of a text is the longest that the grammar allows there. Words, numbers
and operators are tried in a fixed order and each sort reads on as far as it can. This comes to
the longest match because only a minus sign starts lexemes of two sorts, and there the number is
the longer one.
-/

namespace Offside

-- ════════════════════════════════════════════════════════════════════════
-- Numbers
-- ════════════════════════════════════════════════════════════════════════

theorem isWordStart_of_isDigit {c : Char} (h : c.isDigit = true) : isWordStart c = false := by
  -- The digits lie below all letters.
  have hbelow {letter : Char} (hletter : 57 < letter.val.toNat) : ¬ letter.val ≤ c.val := by
    have hdigit : c.val ≤ '9'.val := of_decide_eq_true (Bool.and_eq_true_iff.1 h).2
    rw [UInt32.le_iff_toNat_le] at hdigit ⊢
    have hnine : '9'.val.toNat = 57 := rfl
    omega
  have hupper : c.isUpper = false := decide_eq_false fun hrange => hbelow (by decide) hrange.1
  have hlower : c.isLower = false :=
    Bool.and_eq_false_iff.2 (.inl (decide_eq_false (hbelow (by decide))))
  have hnot : c.isAlpha = false := by
    show (c.isUpper || c.isLower) = false
    rw [hupper, hlower]
    rfl
  have hne : c ≠ '_' := by
    rintro rfl
    cases h
  simp [isWordStart, hnot, hne]

namespace Numeral

theorem pointed_of_ne_nil {digits : List Char} (h : digits ≠ []) :
    pointed digits = '.' :: digits := by
  cases digits with
  | nil => exact absurd rfl h
  | cons digit rest => rfl

theorem ofUnsigned_append {negative : Bool} {whole : List Char} (h : AllDigits whole)
    (rest : List Char) :
    ofUnsigned negative (whole ++ rest) =
      ⟨negative, whole ++ rest.takeWhile Char.isDigit,
        fractionOf (rest.dropWhile Char.isDigit)⟩ := by
  rw [ofUnsigned, List.takeWhile_append_of_pos h, List.dropWhile_append_of_pos h]

/-- A point with digits behind it ends the digits before it. -/
theorem ofUnsigned_append_point {negative : Bool} {whole fraction : List Char}
    (hwhole : AllDigits whole) (hfraction : AllDigits fraction) (rest : List Char) :
    ofUnsigned negative (whole ++ '.' :: (fraction ++ rest)) =
      ⟨negative, whole, fraction ++ rest.takeWhile Char.isDigit⟩ := by
  have hpoint : Char.isDigit '.' = false := by decide
  rw [ofUnsigned_append hwhole, List.takeWhile_cons_of_neg (by simp [hpoint]),
    List.dropWhile_cons_of_neg (by simp [hpoint]), List.append_nil, fractionOf,
    List.takeWhile_append_of_pos hfraction]

/-- In front of a numeral stands a minus sign just when it is negative. -/
theorem Proper.ofText_append {n : Numeral} (h : n.Proper) (rest : List Char) :
    ofText (n.text ++ rest) =
      ofUnsigned n.negative (n.whole ++ (pointed n.fraction ++ rest)) := by
  obtain ⟨negative, whole, fraction⟩ := n
  cases negative with
  | true => simp [text, Binary64.writeSign, ofText]
  | false =>
    simp only [text, Binary64.writeSign, Bool.false_eq_true, if_false, List.nil_append,
      List.append_assoc]
    cases whole with
    | nil =>
      have hsome : fraction ≠ [] := h.some_digit.resolve_left (absurd rfl)
      rw [pointed_of_ne_nil hsome]
      rfl
    | cons digit digits =>
      have hdigit := h.whole digit List.mem_cons_self
      rw [List.cons_append, ofText]
      rintro tail heq
      cases heq
      cases hdigit

/-- The numeral at the head of a text goes on at least as far as any other. -/
theorem Proper.isPrefix_ofText {n : Numeral} (h : n.Proper) {text : List Char}
    (hfront : n.text <+: text) : n.text <+: (ofText text).text := by
  obtain ⟨rest, rfl⟩ := hfront
  rw [h.ofText_append]
  obtain ⟨negative, whole, fraction⟩ := n
  by_cases hsome : fraction = []
  · subst hsome
    simp only [text, pointed, List.nil_append, ofUnsigned_append h.whole, List.append_nil,
      ← List.append_assoc]
    exact (List.prefix_append _ _).trans (List.prefix_append _ _)
  · have hall : fraction ++ rest.takeWhile Char.isDigit ≠ [] := by simp [hsome]
    simp only [text, pointed_of_ne_nil hsome, List.cons_append,
      ofUnsigned_append_point h.whole h.fraction, pointed_of_ne_nil hall]
    rw [← List.cons_append, ← List.append_assoc]
    exact List.prefix_append _ _

theorem Proper.ofText_text {n : Numeral} (h : n.Proper) : ofText n.text = n := by
  have hread := h.ofText_append []
  rw [List.append_nil] at hread
  obtain ⟨negative, whole, fraction⟩ := n
  rw [hread]
  by_cases hsome : fraction = []
  · subst hsome
    exact (ofUnsigned_append h.whole []).trans (by simp [fractionOf])
  · have hpoint : ofUnsigned negative (whole ++ '.' :: (fraction ++ [])) = _ :=
      ofUnsigned_append_point h.whole h.fraction []
    simpa [pointed_of_ne_nil hsome] using hpoint

/-- A numeral is made of digits, its sign and its point. -/
theorem Proper.mem_text {n : Numeral} (h : n.Proper) {c : Char} (hmem : c ∈ n.text) :
    c.isDigit = true ∨ c = '-' ∨ c = '.' := by
  obtain ⟨negative, whole, fraction⟩ := n
  rw [text, List.mem_append, List.mem_append] at hmem
  obtain (hsign | hwhole) | hfraction := hmem
  · cases negative with
    | true => exact .inr (.inl (List.mem_singleton.1 hsign))
    | false => cases hsign
  · exact .inl (h.whole c hwhole)
  · cases fraction with
    | nil => cases hfraction
    | cons digit rest =>
      obtain rfl | hdigit := List.mem_cons.1 hfraction
      · exact .inr (.inr rfl)
      · exact .inl (h.fraction c hdigit)

/-- A number does not start like a word. -/
theorem Proper.exists_head {n : Numeral} (h : n.Proper) :
    ∃ c rest, n.text = c :: rest ∧ isWordStart c = false := by
  obtain ⟨negative, whole, fraction⟩ := n
  cases negative with
  | true => exact ⟨'-', _, rfl, by decide⟩
  | false =>
    cases whole with
    | nil =>
      have hsome : fraction ≠ [] := h.some_digit.resolve_left (absurd rfl)
      exact ⟨'.', fraction, by simp [text, Binary64.writeSign, pointed_of_ne_nil hsome], by decide⟩
    | cons digit digits =>
      exact ⟨digit, _, rfl, isWordStart_of_isDigit (h.whole digit List.mem_cons_self)⟩

theorem Proper.exists_isDigit {n : Numeral} (h : n.Proper) : ∃ c ∈ n.text, c.isDigit = true := by
  rcases h.some_digit with hsome | hsome
  · obtain ⟨digit, hdigit⟩ := List.exists_mem_of_ne_nil _ hsome
    exact ⟨digit, by simp [text, hdigit], h.whole digit hdigit⟩
  · obtain ⟨digit, hdigit⟩ := List.exists_mem_of_ne_nil _ hsome
    exact ⟨digit, by simp [text, pointed_of_ne_nil hsome, hdigit], h.fraction digit hdigit⟩

end Numeral

namespace Lexeme

-- ════════════════════════════════════════════════════════════════════════
-- One sort at a time
-- ════════════════════════════════════════════════════════════════════════

theorem word?_eq_none {c : Char} (h : isWordStart c = false) (rest : List Char) :
    word? (c :: rest) = none := by
  simp [word?, h]

/-- What is read where a word starts goes on at least as far as the word. -/
theorem exists_read?_of_word {word text : List Char} (hword : IsWord word)
    (h : word <+: text) :
    ∃ found, read? text = some found ∧ word.length ≤ found.text.length := by
  obtain ⟨more, rfl⟩ := h
  cases word with
  | nil => exact hword.elim
  | cons c rest =>
    obtain ⟨hstart, hrest⟩ := isWord_cons.1 hword
    refine ⟨ofWord (c :: (rest ++ more).takeWhile isWordChar), ?_, ?_⟩
    · simp [read?, word?, hstart]
    · rw [text_ofWord, List.takeWhile_append_of_pos hrest, List.length_cons, List.length_cons,
        List.length_append]
      omega

theorem isDigit_of_ofNumeral?_eq_none {n : Numeral} (h : ofNumeral? n = none) :
    ∀ c ∈ n.text, c.isDigit = false := by
  obtain ⟨negative, whole, fraction⟩ := n
  rw [ofNumeral?] at h
  split at h
  · cases h
  · next hfraction =>
    split at h
    · cases h
    · next hwhole =>
      obtain rfl : fraction = [] := Decidable.not_not.1 hfraction
      obtain rfl : whole = [] := Decidable.not_not.1 hwhole
      cases negative with
      | false => exact List.forall_mem_nil _
      | true => exact List.forall_mem_singleton.2 rfl

/-- What is read where a number starts goes on at least as far as the number. -/
theorem exists_read?_of_numeral {n : Numeral} {text : List Char} (hn : n.Proper)
    (h : n.text <+: text) :
    ∃ found, read? text = some found ∧ n.text.length ≤ found.text.length := by
  have hfront := hn.isPrefix_ofText h
  have hword : word? text = none := by
    obtain ⟨c, tail, hcons, hstart⟩ := hn.exists_head
    obtain ⟨more, rfl⟩ := h
    rw [hcons, List.cons_append, word?_eq_none hstart]
  cases hnumber : number? text with
  | none =>
    obtain ⟨digit, hmem, hdigit⟩ := hn.exists_isDigit
    have hnot := isDigit_of_ofNumeral?_eq_none hnumber digit (hfront.mem hmem)
    rw [hdigit] at hnot
    cases hnot
  | some found =>
    refine ⟨found, by simp [read?, hword, hnumber], ?_⟩
    rw [(text_of_ofNumeral? hnumber).1]
    exact hfront.length_le

theorem word?_of_operator (op : Operator) (rest : List Char) :
    word? (op.text.toList ++ rest) = none := by
  cases op <;> rfl

/-- Where an operator of two characters starts there is no number. -/
theorem number?_of_double {op : Operator} (hdouble : op ∈ Operator.doubles) (rest : List Char) :
    number? (op.text.toList ++ rest) = none := by
  simp only [Operator.doubles, List.mem_cons, List.not_mem_nil, or_false] at hdouble
  rcases hdouble with rfl | rfl | rfl | rfl <;> rfl

/-- An operator of two characters is found before those of one. -/
theorem exists_operator?_of_double {op : Operator} {text : List Char}
    (hdouble : op ∈ Operator.doubles) (h : op.text.toList <+: text) :
    ∃ other ∈ Operator.doubles, operator? text = some (ofOperator other) := by
  have hsome : (Operator.doubles.find? fun op => op.text.toList.isPrefixOf text).isSome = true :=
    List.find?_isSome.2 ⟨op, hdouble, List.isPrefixOf_iff_prefix.2 h⟩
  obtain ⟨other, hfind⟩ := Option.isSome_iff_exists.1 hsome
  refine ⟨other, List.mem_of_find?_eq_some hfind, ?_⟩
  rw [operator?, List.find?_append, hfind]
  rfl

theorem exists_read?_of_operator {op : Operator} {text : List Char}
    (h : op.text.toList <+: text) :
    ∃ found, read? text = some found ∧ op.text.toList.length ≤ found.text.length := by
  have hword : word? text = none := by
    obtain ⟨rest, rfl⟩ := h
    exact word?_of_operator op rest
  have htable : op ∈ Operator.doubles ∨ op ∈ Operator.singles := by
    cases op <;> decide
  rcases htable with hdouble | hsingle
  · have hnumber : number? text = none := by
      obtain ⟨rest, rfl⟩ := h
      exact number?_of_double hdouble rest
    obtain ⟨other, hother, hread⟩ := exists_operator?_of_double hdouble h
    refine ⟨ofOperator other, by simp [read?, hword, hnumber, hread], ?_⟩
    have hlength := (Operator.mem_doubles_or_mem_singles op).1.1 hdouble
    have hfound := (Operator.mem_doubles_or_mem_singles other).1.1 hother
    rw [ofOperator, String.length_toList, String.length_toList, hlength, hfound]
  · have hlength := (Operator.mem_doubles_or_mem_singles op).2.1 hsingle
    -- An operator of one character is not longer than anything that is read at all.
    cases hread : read? text with
    | some found =>
      refine ⟨found, rfl, ?_⟩
      rw [String.length_toList, hlength]
      exact List.length_pos_iff.2 (text_ne_nil_of_read? hread)
    | none =>
      simp only [read?, Option.or_eq_none_iff, operator?, Option.map_eq_none_iff,
        List.find?_eq_none, List.isPrefixOf_iff_prefix] at hread
      exact absurd h (hread.2.2 op (List.mem_append_right _ hsingle))

-- ════════════════════════════════════════════════════════════════════════
-- All sorts together
-- ════════════════════════════════════════════════════════════════════════

/-- Where a lexeme of the grammar starts, what is read goes on at least as far. -/
theorem exists_read?_of_isPrefix {lexeme : Lexeme} {text : List Char} (hformed : lexeme.Formed)
    (h : lexeme.text <+: text) :
    ∃ found, read? text = some found ∧ lexeme.text.length ≤ found.text.length := by
  rcases formed_iff.1 hformed with ⟨word, hword, rfl⟩ | ⟨n, hn, hlexeme⟩ | ⟨op, rfl⟩
  · rw [text_ofWord] at h ⊢
    exact exists_read?_of_word hword h
  · rw [(text_of_ofNumeral? hlexeme).1] at h ⊢
    exact exists_read?_of_numeral hn h
  · exact exists_read?_of_operator h

/-- Every lexeme of the grammar is read back from its text. -/
theorem Formed.read?_text {lexeme : Lexeme} (h : lexeme.Formed) :
    read? lexeme.text = some lexeme := by
  rcases formed_iff.1 h with ⟨word, hword, rfl⟩ | ⟨n, hn, hlexeme⟩ | ⟨op, rfl⟩
  · rw [text_ofWord]
    cases word with
    | nil => exact hword.elim
    | cons c rest =>
      obtain ⟨hstart, hrest⟩ := isWord_cons.1 hword
      rw [read?, word?, if_pos hstart, Option.some_or, List.takeWhile_eq_self_iff.2 hrest]
  · obtain ⟨c, tail, hcons, hstart⟩ := hn.exists_head
    rw [(text_of_ofNumeral? hlexeme).1, read?, number?, hn.ofText_text, hlexeme, hcons,
      word?_eq_none hstart, Option.none_or, Option.some_or]
  · cases op <;> decide +kernel

/-- A lexeme of the grammar is determined by its text. -/
theorem Formed.eq_of_text_eq {lexeme other : Lexeme} (h : lexeme.Formed) (hother : other.Formed)
    (htext : lexeme.text = other.text) : lexeme = other := by
  have hread := h.read?_text
  rw [htext, hother.read?_text] at hread
  exact (Option.some.inj hread).symm

/-- The longest lexeme of the grammar at the head of a text. -/
structure IsLongest (lexeme : Lexeme) (text : List Char) : Prop where
  formed : lexeme.Formed
  isPrefix : lexeme.text <+: text
  length_le : ∀ other : Lexeme, other.Formed → other.text <+: text →
    other.text.length ≤ lexeme.text.length

theorem isLongest_of_read? {text : List Char} {lexeme : Lexeme} (h : read? text = some lexeme) :
    lexeme.IsLongest text where
  formed := formed_of_read? h
  isPrefix := text_isPrefix_of_read? h
  length_le := by
    intro other hformed hfront
    obtain ⟨found, hread, hle⟩ := exists_read?_of_isPrefix hformed hfront
    rw [h] at hread
    cases hread
    exact hle

/-- There is only one longest lexeme. -/
theorem IsLongest.unique {text : List Char} {lexeme other : Lexeme} (h : lexeme.IsLongest text)
    (hother : other.IsLongest text) : lexeme = other := by
  have hlength : lexeme.text.length = other.text.length :=
    Nat.le_antisymm (hother.length_le _ h.formed h.isPrefix)
      (h.length_le _ hother.formed hother.isPrefix)
  have hfront := List.prefix_of_prefix_length_le h.isPrefix hother.isPrefix hlength.le
  exact h.formed.eq_of_text_eq hother.formed (hfront.eq_of_length hlength)

/-- Reading finds the longest lexeme, and nothing only if there is none. -/
theorem read?_eq_some_iff {text : List Char} {lexeme : Lexeme} :
    read? text = some lexeme ↔ lexeme.IsLongest text := by
  refine ⟨isLongest_of_read?, fun h => ?_⟩
  obtain ⟨found, hread, -⟩ := exists_read?_of_isPrefix h.formed h.isPrefix
  rw [hread, (isLongest_of_read? hread).unique h]

theorem read?_eq_none_iff {text : List Char} :
    read? text = none ↔ ∀ lexeme : Lexeme, lexeme.Formed → ¬ lexeme.text <+: text := by
  constructor
  · intro hnone lexeme hformed hfront
    obtain ⟨found, hread, -⟩ := exists_read?_of_isPrefix hformed hfront
    rw [hnone] at hread
    cases hread
  · intro hall
    rw [Option.eq_none_iff_forall_ne_some]
    intro lexeme hread
    have h := isLongest_of_read? hread
    exact hall lexeme h.formed h.isPrefix

end Lexeme

namespace Content

/-- The lexeme at a position of a line: the families are tried in order. -/
def firstLexemeAt (text : List Char) (position : Nat) :
    Except PositionError (Option Placed) := do
  if let some word ← lexemeAt .word text position then return word
  if let some number ← lexemeAt .number text position then return number
  lexemeAt .operator text position

/-- Trying the families in order at a position is what reading a line does there. -/
theorem firstLexemeAt_eq {text : List Char} {position : Nat} (h : position < text.length) :
    firstLexemeAt text position =
      .ok ((Lexeme.read? (text.drop position)).map (Placed.mk (position + 1))) := by
  have hsome : text.drop position ≠ [] := by
    rw [ne_eq, List.drop_eq_nil_iff]
    omega
  simp only [firstLexemeAt, lexemeAt, if_neg hsome, Lexeme.read?]
  cases Lexeme.word? (text.drop position) with
  | some word => rfl
  | none =>
    cases Lexeme.number? (text.drop position) with
    | some number => rfl
    | none => rfl

/-- At every position of a line the families, tried in order, find the longest lexeme of the
    grammar, in the column of the position, and nothing only where no lexeme starts. The text of
    that lexeme determines all of it. -/
theorem firstLexemeAt_longest {text : List Char} {position : Nat} (h : position < text.length) :
    ∃ found, firstLexemeAt text position = .ok found ∧
      (found = none ↔ ∀ lexeme : Lexeme, lexeme.Formed → ¬ lexeme.text <+: text.drop position) ∧
      ∀ placed, (found = some placed ↔
          placed.column = position + 1 ∧ placed.lexeme.IsLongest (text.drop position)) ∧
        (found = some placed → ∀ lexeme : Lexeme, lexeme.Formed →
          lexeme.text = placed.lexeme.text → placed.lexeme = lexeme) := by
  refine ⟨_, firstLexemeAt_eq h, ?_, ?_⟩
  · rw [Option.map_eq_none_iff, Lexeme.read?_eq_none_iff]
  · rintro ⟨column, lexeme⟩
    have hfound : (Lexeme.read? (text.drop position)).map (Placed.mk (position + 1)) =
        some ⟨column, lexeme⟩ ↔
          column = position + 1 ∧ lexeme.IsLongest (text.drop position) := by
      rw [Option.map_eq_some_iff, ← Lexeme.read?_eq_some_iff]
      constructor
      · rintro ⟨found, hread, hplaced⟩
        cases hplaced
        exact ⟨rfl, hread⟩
      · rintro ⟨rfl, hread⟩
        exact ⟨lexeme, hread, rfl⟩
    refine ⟨hfound, ?_⟩
    intro hsome other hformed htext
    exact (hfound.1 hsome).2.formed.eq_of_text_eq hformed htext.symm

/-- A second point does not belong to the number before it, and a minus sign does. -/
theorem firstLexemeAt_longest_two_points :
    2 < "x=-1.5.6".toList.length ∧
      ∃ number : Lexeme, firstLexemeAt "x=-1.5.6".toList 2 = .ok (some ⟨3, number⟩) ∧
        number.kind = .float ∧ number.text = "-1.5".toList ∧
        number.IsLongest ("x=-1.5.6".toList.drop 2) := by
  have hposition : 2 < "x=-1.5.6".toList.length := by decide
  have hread : firstLexemeAt "x=-1.5.6".toList 2 = .ok (some ⟨3, .float, "-1.5".toList,
      .float (Numeral.float ⟨true, ['1'], ['5']⟩)⟩) := by
    decide +kernel
  obtain ⟨found, hfound, -, hlongest⟩ := firstLexemeAt_longest hposition
  have hsome := Except.ok.inj (hfound.symm.trans hread)
  exact ⟨hposition, _, hread, rfl, rfl, ((hlongest _).1.1 hsome).2⟩

end Content

end Offside
