import Offside.Proofs.Content.Cover
import Offside.Proofs.Lexemes.LongestMatch

/-!
# Faults

Whether a line has a fault, and where, can be told character by character, without following
where one lexeme ends and the next begins. A position is faulty when its character belongs to no
lexeme, or is an exclamation mark or a point and the character behind it does not continue it.
No lexeme hides such a position, and no other position is left without a lexeme.
-/

namespace Offside

-- ════════════════════════════════════════════════════════════════════════
-- Faulty positions
-- ════════════════════════════════════════════════════════════════════════

/-- The characters that may stand outside comments: letters, digits and the underscore, blanks,
    and the characters of operators and of the point. -/
def inAlphabet (c : Char) : Bool :=
  c.isAlphanum || "_ \t=!<>+-*/(),:.".toList.contains c

/-- A text starts with a fault when its first character is outside the alphabet, or is an
    exclamation mark without an equals sign behind it, or a point without a digit behind it. -/
def StartsFaulty : List Char → Prop
  | [] => False
  | c :: rest =>
    inAlphabet c = false ∨ (c = '!' ∧ rest.head? ≠ some '=') ∨
      (c = '.' ∧ ∀ d ∈ rest.head?, d.isDigit = false)

/-- A faulty position of a line that is read from `start` on: no comment has begun up to the
    position, and the text from there on starts with a fault. -/
structure FaultyAt (text : List Char) (start position : Nat) : Prop where
  start_le : start ≤ position
  not_comment : '#' ∉ (text.drop start).take (position + 1 - start)
  startsFaulty : StartsFaulty (text.drop position)

/-- The leftmost faulty position. -/
structure FirstFaulty (text : List Char) (start position : Nat) : Prop where
  faultyAt : FaultyAt text start position
  le : ∀ other, FaultyAt text start other → position ≤ other

theorem faultyAt_iff_drop {text : List Char} {start position : Nat} :
    FaultyAt text start position ↔
      ∃ behind, position = start + behind ∧ FaultyAt (text.drop start) 0 behind := by
  constructor
  · intro h
    obtain ⟨behind, rfl⟩ := Nat.exists_eq_add_of_le h.start_le
    refine ⟨behind, rfl, Nat.zero_le _, ?_, ?_⟩
    · have hcomment := h.not_comment
      rwa [Nat.add_assoc, Nat.add_sub_cancel_left] at hcomment
    · rw [List.drop_drop]
      exact h.startsFaulty
  · rintro ⟨behind, rfl, h⟩
    refine ⟨Nat.le_add_right _ _, ?_, ?_⟩
    · rw [Nat.add_assoc, Nat.add_sub_cancel_left]
      exact h.not_comment
    · rw [← List.drop_drop]
      exact h.startsFaulty

theorem FirstFaulty.of_drop {text : List Char} {start behind : Nat}
    (h : FirstFaulty (text.drop start) 0 behind) : FirstFaulty text start (start + behind) where
  faultyAt := faultyAt_iff_drop.2 ⟨behind, rfl, h.faultyAt⟩
  le := by
    intro other hother
    obtain ⟨between, rfl, hbetween⟩ := faultyAt_iff_drop.1 hother
    exact Nat.add_le_add_left (h.le between hbetween) start

theorem FirstFaulty.unique {text : List Char} {start position other : Nat}
    (h : FirstFaulty text start position) (hother : FirstFaulty text start other) :
    position = other :=
  Nat.le_antisymm (h.le other hother.faultyAt) (hother.le position h.faultyAt)

/-- A first character that is neither a fault nor the start of a comment shifts the faulty
    positions. -/
theorem faultyAt_cons_iff {c : Char} {text : List Char} (hc : c ≠ '#')
    (hok : ¬ StartsFaulty (c :: text)) {position : Nat} :
    FaultyAt (c :: text) 0 position ↔ ∃ behind, position = behind + 1 ∧ FaultyAt text 0 behind := by
  constructor
  · intro h
    cases position with
    | zero => exact absurd h.startsFaulty hok
    | succ behind =>
      refine ⟨behind, rfl, Nat.zero_le _, ?_, h.startsFaulty⟩
      have hcomment := h.not_comment
      rw [List.drop_zero, Nat.sub_zero, List.take_succ_cons, List.mem_cons, not_or] at hcomment
      exact hcomment.2
  · rintro ⟨behind, rfl, h⟩
    refine ⟨Nat.zero_le _, ?_, h.startsFaulty⟩
    rw [List.drop_zero, Nat.sub_zero, List.take_succ_cons, List.mem_cons, not_or]
    exact ⟨hc.symm, h.not_comment⟩

theorem not_faultyAt_nil (start position : Nat) : ¬ FaultyAt [] start position := by
  intro h
  have hstarts := h.startsFaulty
  rwa [List.drop_nil] at hstarts

theorem not_faultyAt_comment (text : List Char) (position : Nat) :
    ¬ FaultyAt ('#' :: text) 0 position := by
  intro h
  have hcomment := h.not_comment
  rw [List.drop_zero, Nat.sub_zero, List.take_succ_cons] at hcomment
  exact hcomment List.mem_cons_self

/-- A text without faulty positions and without a comment, where `rest` stands behind it. -/
inductive Clean (rest : List Char) : List Char → Prop where
  | nil : Clean rest []
  | cons {c : Char} {text : List Char} (hcomment : c ≠ '#')
      (hok : ¬ StartsFaulty (c :: (text ++ rest))) (htext : Clean rest text) :
      Clean rest (c :: text)

namespace Clean

variable {text rest : List Char}

theorem append {front back : List Char} (hfront : Clean (back ++ rest) front)
    (hback : Clean rest back) : Clean rest (front ++ back) := by
  induction hfront with
  | nil => exact hback
  | cons hcomment hok _ ih =>
    rw [← List.append_assoc] at hok
    exact .cons hcomment hok ih

theorem of_forall
    (h : ∀ c ∈ text, inAlphabet c = true ∧ c ≠ '!' ∧ c ≠ '.') (rest : List Char) :
    Clean rest text := by
  induction text with
  | nil => exact .nil
  | cons c text ih =>
    obtain ⟨⟨hinside, hbang, hpoint⟩, htext⟩ := List.forall_mem_cons.1 h
    refine .cons ?_ ?_ (ih htext)
    · rintro rfl
      cases hinside
    · simp [StartsFaulty, hinside, hbang, hpoint]

theorem of_all (h : (text.all fun c => inAlphabet c && c != '!' && c != '.') = true)
    (rest : List Char) : Clean rest text := by
  refine of_forall ?_ rest
  intro c hmem
  have hc := List.all_eq_true.1 h c hmem
  simpa only [Bool.and_eq_true, bne_iff_ne, ne_eq, and_assoc] using hc

/-- A clean text in front shifts the faulty positions. -/
theorem faultyAt_append_iff (h : Clean rest text) {position : Nat} :
    FaultyAt (text ++ rest) 0 position ↔
      ∃ behind, position = text.length + behind ∧ FaultyAt rest 0 behind := by
  induction h generalizing position with
  | nil => simp
  | cons hcomment hok _ ih =>
    rw [List.cons_append, faultyAt_cons_iff hcomment hok, List.length_cons]
    constructor
    · rintro ⟨between, rfl, hfaulty⟩
      obtain ⟨behind, rfl, hbehind⟩ := ih.1 hfaulty
      exact ⟨behind, by omega, hbehind⟩
    · rintro ⟨behind, rfl, hbehind⟩
      exact ⟨_, by omega, ih.2 ⟨behind, rfl, hbehind⟩⟩

end Clean

-- ════════════════════════════════════════════════════════════════════════
-- Lexemes and faulty positions
-- ════════════════════════════════════════════════════════════════════════

theorem inAlphabet_of_isBlank {c : Char} (h : isBlank c = true) :
    inAlphabet c = true ∧ c ≠ '!' ∧ c ≠ '.' := by
  simp only [isBlank, Bool.or_eq_true, beq_iff_eq] at h
  rcases h with rfl | rfl <;> decide

theorem inAlphabet_of_isWordChar {c : Char} (h : isWordChar c = true) :
    inAlphabet c = true ∧ c ≠ '!' ∧ c ≠ '.' := by
  refine ⟨?_, ?_, ?_⟩
  · simp only [isWordChar, isWordStart, Bool.or_eq_true, beq_iff_eq] at h
    rcases h with (h | rfl) | h
    · simp [inAlphabet, Char.isAlphanum, h]
    · decide
    · simp [inAlphabet, Char.isAlphanum, h]
  · rintro rfl
    cases h
  · rintro rfl
    cases h

theorem inAlphabet_of_isDigit {c : Char} (h : c.isDigit = true) :
    inAlphabet c = true ∧ c ≠ '!' ∧ c ≠ '.' :=
  inAlphabet_of_isWordChar (by simp [isWordChar, h])

theorem clean_point {d : Char} (hd : d.isDigit = true) (rest : List Char) :
    Clean (d :: rest) ['.'] := by
  refine .cons (by decide) ?_ .nil
  simp [StartsFaulty, hd, inAlphabet]

/-- Only a point needs the digit behind it, and a number has one there. -/
theorem clean_text_of_proper {n : Numeral} (hn : n.Proper) (rest : List Char) :
    Clean rest n.text := by
  obtain ⟨negative, whole, fraction⟩ := n
  have hfront : ∀ c ∈ Binary64.writeSign negative ++ whole,
      inAlphabet c = true ∧ c ≠ '!' ∧ c ≠ '.' := by
    intro c hmem
    rcases List.mem_append.1 hmem with hmem | hmem
    · cases negative with
      | true =>
        obtain rfl := List.mem_singleton.1 hmem
        decide
      | false => cases hmem
    · exact inAlphabet_of_isDigit (hn.whole c hmem)
  refine Clean.append (Clean.of_forall hfront _) ?_
  cases fraction with
  | nil => exact .nil
  | cons digit digits =>
    have hback := Clean.of_forall (fun c hmem => inAlphabet_of_isDigit (hn.fraction c hmem)) rest
    have hdigit := hn.fraction digit List.mem_cons_self
    exact Clean.append (clean_point hdigit _) hback

theorem clean_text_of_operator (op : Operator) (rest : List Char) :
    Clean rest op.text.toList := by
  cases op
  case notEqual =>
    -- An exclamation mark stands only in front of an equals sign.
    change Clean rest ['!', '=']
    refine .cons (by decide) ?_ (Clean.of_all (by decide) rest)
    simp [StartsFaulty, inAlphabet]
  all_goals exact Clean.of_all (by decide) rest

/-- No lexeme of the grammar hides a faulty position. -/
theorem clean_of_formed {lexeme : Lexeme} (h : lexeme.Formed) (rest : List Char) :
    Clean rest lexeme.text := by
  rcases Lexeme.formed_iff.1 h with ⟨word, hword, rfl⟩ | ⟨n, hn, hlexeme⟩ | ⟨op, rfl⟩
  · rw [Lexeme.text_ofWord]
    cases word with
    | nil => exact .nil
    | cons c tail =>
      obtain ⟨hstart, htail⟩ := Lexeme.isWord_cons.1 hword
      have hall : ∀ d ∈ c :: tail, isWordChar d = true :=
        List.forall_mem_cons.2 ⟨by simp [isWordChar, hstart], htail⟩
      exact Clean.of_forall (fun d hmem => inAlphabet_of_isWordChar (hall d hmem)) rest
  · rw [(Lexeme.text_of_ofNumeral? hlexeme).1]
    exact clean_text_of_proper hn rest
  · exact clean_text_of_operator op rest

/-- Where no lexeme starts the text is faulty, but for blanks and comments. -/
theorem startsFaulty_of_read?_eq_none {c : Char} {rest : List Char} (hblank : isBlank c = false)
    (h : Lexeme.read? (c :: rest) = none) : StartsFaulty (c :: rest) := by
  rw [Lexeme.read?_eq_none_iff] at h
  have hword : isWordStart c = false := by
    rw [← Bool.not_eq_true]
    intro hstart
    have hformed := Lexeme.Formed.of_word (Lexeme.isWord_cons.2 ⟨hstart, List.forall_mem_nil _⟩)
    exact h _ hformed ⟨rest, by rw [Lexeme.text_ofWord]; rfl⟩
  have hdigit : c.isDigit = false := by
    rw [← Bool.not_eq_true]
    intro hdigit
    have hformed := Lexeme.Formed.integer false (List.forall_mem_singleton.2 hdigit)
      (List.cons_ne_nil c [])
    exact h _ hformed ⟨rest, rfl⟩
  have hoperator : ∀ op : Operator, ¬ op.text.toList <+: c :: rest :=
    fun op => h _ (.operator op)
  by_contra hok
  simp only [StartsFaulty, not_or, not_and, Bool.not_eq_false] at hok
  obtain ⟨hinside, hbang, hpoint⟩ := hok
  simp only [isWordStart, Bool.or_eq_false_iff, beq_eq_false_iff_ne] at hword
  simp only [isBlank, Bool.or_eq_false_iff, beq_eq_false_iff_ne] at hblank
  -- What is left of the alphabet are the characters of the operators and the point.
  have hsymbol : c = '=' ∨ c = '!' ∨ c = '<' ∨ c = '>' ∨ c = '+' ∨ c = '-' ∨ c = '*' ∨ c = '/' ∨
      c = '(' ∨ c = ')' ∨ c = ',' ∨ c = ':' ∨ c = '.' := by
    simpa [inAlphabet, Char.isAlphanum, hword, hblank, hdigit] using hinside
  rcases hsymbol with rfl | rfl | rfl | rfl | rfl | rfl | rfl | rfl | rfl | rfl | rfl | rfl | rfl
  · exact hoperator .assign ⟨rest, rfl⟩
  · cases rest with
    | nil => exact hbang rfl (by simp)
    | cons d tail =>
      obtain rfl : d = '=' := by simpa using hbang rfl
      exact hoperator .notEqual ⟨tail, rfl⟩
  · exact hoperator .less ⟨rest, rfl⟩
  · exact hoperator .greater ⟨rest, rfl⟩
  · exact hoperator .plus ⟨rest, rfl⟩
  · exact hoperator .minus ⟨rest, rfl⟩
  · exact hoperator .times ⟨rest, rfl⟩
  · exact hoperator .dividedBy ⟨rest, rfl⟩
  · exact hoperator .leftParen ⟨rest, rfl⟩
  · exact hoperator .rightParen ⟨rest, rfl⟩
  · exact hoperator .comma ⟨rest, rfl⟩
  · exact hoperator .colon ⟨rest, rfl⟩
  · cases rest with
    | nil => exact hpoint rfl (by simp)
    | cons d tail =>
      have hd : d.isDigit = true := by simpa using hpoint rfl
      have hformed := Lexeme.Formed.float false (List.forall_mem_nil _)
        (List.forall_mem_singleton.2 hd) (List.cons_ne_nil d [])
      exact h _ hformed ⟨tail, rfl⟩

-- ════════════════════════════════════════════════════════════════════════
-- The fault of a content
-- ════════════════════════════════════════════════════════════════════════

/-- A fault is the first faulty position of a text that begins in some column, and there is no
    fault only where there is no faulty position. -/
def IsFirstFault (column : Nat) (text : List Char) : Option Fault → Prop
  | none => ∀ position, ¬ FaultyAt text 0 position
  | some fault => ∃ position, FirstFaulty text 0 position ∧ fault.column = column + position ∧
      text[position]? = some fault.character

theorem IsFirstFault.append {column : Nat} {text rest : List Char} {fault : Option Fault}
    (hclean : Clean rest text) (h : IsFirstFault (column + text.length) rest fault) :
    IsFirstFault column (text ++ rest) fault := by
  cases fault with
  | none =>
    intro position hfaulty
    obtain ⟨behind, -, hbehind⟩ := hclean.faultyAt_append_iff.1 hfaulty
    exact h behind hbehind
  | some fault =>
    obtain ⟨behind, hfirst, hcolumn, hcharacter⟩ := h
    refine ⟨text.length + behind, ⟨?_, ?_⟩, by omega, ?_⟩
    · exact hclean.faultyAt_append_iff.2 ⟨behind, rfl, hfirst.faultyAt⟩
    · intro other hother
      obtain ⟨between, rfl, hbetween⟩ := hclean.faultyAt_append_iff.1 hother
      have hle := hfirst.le between hbetween
      omega
    · rw [List.getElem?_append_right (Nat.le_add_right _ _), Nat.add_sub_cancel_left]
      exact hcharacter

/-- The fault of a content is the first faulty position of the text. -/
theorem Content.isFirstFault_read (column : Nat) (text : List Char) :
    IsFirstFault column text (read column text).fault := by
  fun_induction read column text with
  | case1 => exact not_faultyAt_nil 0
  | case2 column c rest hblank ih =>
    have hclean : Clean rest [c] :=
      Clean.of_forall (List.forall_mem_singleton.2 (inAlphabet_of_isBlank hblank)) rest
    exact IsFirstFault.append hclean ih
  | case3 => exact not_faultyAt_comment _
  | case4 column c rest hblank hcomment hnone =>
    have hstarts := startsFaulty_of_read?_eq_none (Bool.eq_false_iff.2 hblank) hnone
    refine ⟨0, ⟨⟨Nat.le_refl 0, ?_, hstarts⟩, fun _ _ => Nat.zero_le _⟩, rfl, rfl⟩
    exact fun hmem => hcomment (List.mem_singleton.1 hmem).symm
  | case5 column c rest hblank hcomment lexeme hread ih =>
    have hclean := clean_of_formed (Lexeme.formed_of_read? hread)
      ((c :: rest).drop lexeme.text.length)
    have hfault := IsFirstFault.append hclean ih
    rwa [Lexeme.text_append_of_read? hread] at hfault

end Offside
