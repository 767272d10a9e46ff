import Mathlib.Data.List.Find
import Offside.Proofs.Lexemes.LongestMatch

/-!
# Reading by position

A line can also be read with a position in it in place of the rest behind the position. What
stands at the position and right behind it decides, a stretch of characters of one class is
followed to its end, and the lexeme is cut out of the whole line. This comes to the same: at each
position the same lexeme is found, and from each position on the same content.
-/

namespace Offside

namespace ByPosition

/-- The first position from the given one on where no character of the class stands. -/
def stretchEnd (isMember : Char → Bool) (text : List Char) (position : Nat) : Nat :=
  if h : position < text.length then
    if isMember text[position] then stretchEnd isMember text (position + 1) else position
  else position
termination_by text.length - position

def word? (text : List Char) (position : Nat) : Option Lexeme :=
  if text[position]?.any isWordStart then
    some (.ofWord (text.extract position (stretchEnd isWordChar text (position + 1))))
  else none

/-- The number at a position. Behind its sign and its digits a point belongs to it if a digit
    stands right behind the point. -/
def number? (text : List Char) (position : Nat) : Option Lexeme :=
  let start := if text[position]? = some '-' then position + 1 else position
  let stop := stretchEnd Char.isDigit text start
  if text[stop]? = some '.' ∧ text[stop + 1]?.any Char.isDigit then
    let number := text.extract position (stretchEnd Char.isDigit text (stop + 2))
    some ⟨.float, number, .float (Numeral.ofText number).float⟩
  else if stop = start then none
  else
    let number := text.extract position stop
    some ⟨.integer, number, .integer (Numeral.ofText number).integer⟩

def operator? (text : List Char) (position : Nat) : Option Lexeme :=
  let double? :=
    if text[position]?.any isDoubleStart then
      Operator.doubles.find? fun op => op.text.toList == text.extract position (position + 2)
    else none
  let single? := Operator.singles.find? fun op => op.text.toList == text[position]?.toList
  (double?.or single?).map .ofOperator

def read? (text : List Char) (position : Nat) : Option Lexeme :=
  (word? text position).or ((number? text position).or (operator? text position))

-- ════════════════════════════════════════════════════════════════════════
-- Stretches
-- ════════════════════════════════════════════════════════════════════════

variable {text : List Char} {position : Nat}

theorem stretchEnd_eq (isMember : Char → Bool) (text : List Char) (position : Nat) :
    stretchEnd isMember text position =
      position + ((text.drop position).takeWhile isMember).length := by
  fun_induction stretchEnd isMember text position with
  | case1 position h hmember ih =>
    rw [ih, List.drop_eq_getElem_cons h, List.takeWhile_cons_of_pos hmember, List.length_cons]
    omega
  | case2 position h hmember =>
    rw [List.drop_eq_getElem_cons h, List.takeWhile_cons_of_neg hmember]
    rfl
  | case3 position h =>
    rw [List.drop_eq_nil_of_le (Nat.le_of_not_lt h)]
    rfl

theorem drop_stretchEnd (isMember : Char → Bool) (text : List Char) (position : Nat) :
    text.drop (stretchEnd isMember text position) = (text.drop position).dropWhile isMember := by
  rw [stretchEnd_eq, ← List.drop_drop]
  generalize text.drop position = rest
  calc rest.drop (rest.takeWhile isMember).length
      = (rest.takeWhile isMember ++ rest.dropWhile isMember).drop
          (rest.takeWhile isMember).length := by rw [List.takeWhile_append_dropWhile]
    _ = rest.dropWhile isMember := List.drop_left

/-- What is cut out of a line from a position on is a front of the rest. -/
theorem extract_add_length {front : List Char} (h : front <+: text.drop position) :
    text.extract position (position + front.length) = front := by
  rw [List.extract_eq_take_drop, Nat.add_sub_cancel_left, ← List.prefix_iff_eq_take.1 h]

-- ════════════════════════════════════════════════════════════════════════
-- The three sorts
-- ════════════════════════════════════════════════════════════════════════

theorem word?_eq (text : List Char) (position : Nat) :
    word? text position = Lexeme.word? (text.drop position) := by
  rw [word?, ← List.head?_drop, stretchEnd_eq, List.drop_add_one_eq_tail_drop]
  cases hrest : text.drop position with
  | nil => rfl
  | cons c rest =>
    have hfront : c :: rest.takeWhile isWordChar <+: text.drop position := by
      rw [hrest, List.prefix_cons_inj]
      exact List.takeWhile_prefix _
    have hcut := extract_add_length hfront
    rw [List.length_cons, Nat.add_comm _ 1, ← Nat.add_assoc] at hcut
    rw [List.tail_cons, hcut, Lexeme.word?, List.head?_cons, Option.any_some]

theorem isPrefixOf_eq_take {op : Operator} {count : Nat} (h : op.text.length = count)
    (rest : List Char) :
    op.text.toList.isPrefixOf rest = (op.text.toList == rest.take count) := by
  rw [Bool.eq_iff_iff, List.isPrefixOf_iff_prefix, List.prefix_iff_eq_take, String.length_toList,
    h, beq_iff_eq]

/-- An operator of two characters is only looked for where one of them can start. -/
theorem find?_doubles (c : Char) (rest : List Char) :
    (if isDoubleStart c then
        Operator.doubles.find? fun op => op.text.toList == (c :: rest).take 2
      else none) =
      Operator.doubles.find? fun op => op.text.toList.isPrefixOf (c :: rest) := by
  split
  · refine List.find?_congr fun op hmem => ?_
    rw [isPrefixOf_eq_take ((Operator.mem_doubles_or_mem_singles op).1.1 hmem)]
  · next hstart =>
    symm
    rw [List.find?_eq_none]
    intro op hmem hfront
    obtain ⟨more, hmore⟩ := List.isPrefixOf_iff_prefix.1 hfront
    apply hstart
    rw [isDoubleStart, List.any_eq_true]
    refine ⟨op, hmem, ?_⟩
    cases htext : op.text.toList with
    | nil =>
      have hlength := (Operator.mem_doubles_or_mem_singles op).1.1 hmem
      rw [← String.length_toList, htext] at hlength
      cases hlength
    | cons first tail =>
      rw [htext, List.cons_append, List.cons.injEq] at hmore
      simp [hmore.1]

theorem operator?_eq (text : List Char) (position : Nat) :
    operator? text position = Lexeme.operator? (text.drop position) := by
  rw [operator?, Lexeme.operator?, ← List.head?_drop, List.extract_eq_take_drop,
    Nat.add_sub_cancel_left, List.find?_append]
  cases text.drop position with
  | nil => rfl
  | cons c rest =>
    have hsingles : (Operator.singles.find? fun op => op.text.toList == [c]) =
        Operator.singles.find? fun op => op.text.toList.isPrefixOf (c :: rest) := by
      refine List.find?_congr fun op hmem => ?_
      rw [isPrefixOf_eq_take ((Operator.mem_doubles_or_mem_singles op).2.1 hmem)]
      rfl
    rw [List.head?_cons, Option.any_some, find?_doubles, Option.toList_some, hsingles]

/-- Digits are found behind a point just where a digit stands right behind it. -/
theorem point_iff (text : List Char) (stop : Nat) :
    (text[stop]? = some '.' ∧ text[stop + 1]?.any Char.isDigit = true) ↔
      Numeral.fractionOf (text.drop stop) ≠ [] := by
  have hnext : text[stop + 1]? = (text.drop stop).tail.head? := by
    rw [List.tail_drop, List.head?_drop]
  rw [← List.head?_drop, hnext]
  cases text.drop stop with
  | nil => simp [Numeral.fractionOf]
  | cons c rest =>
    by_cases hc : c = '.'
    · subst hc
      cases rest with
      | nil => simp [Numeral.fractionOf]
      | cons d more => by_cases hd : d.isDigit = true <;> simp [Numeral.fractionOf, hd]
    · simp [Numeral.fractionOf, hc]

/-- The digits behind a point end where the stretch of digits does that begins with the second of
    them. -/
theorem stretchEnd_point {stop : Nat} (h : Numeral.fractionOf (text.drop stop) ≠ []) :
    stretchEnd Char.isDigit text (stop + 2) =
      stop + 1 + (Numeral.fractionOf (text.drop stop)).length := by
  obtain ⟨hpoint, hdigit⟩ := (point_iff text stop).2 h
  obtain ⟨hlt, hpoint⟩ := List.getElem?_eq_some_iff.1 hpoint
  obtain ⟨d, hd, hdigit⟩ := (Option.any_eq_true _ _).1 hdigit
  obtain ⟨hlt', rfl⟩ := List.getElem?_eq_some_iff.1 hd
  rw [stretchEnd_eq, List.drop_eq_getElem_cons hlt, hpoint, Numeral.fractionOf,
    List.drop_eq_getElem_cons hlt', List.takeWhile_cons_of_pos hdigit, List.length_cons,
    Nat.add_assoc stop 1 1]
  omega

/-- The sign of a number is the minus sign at its position, and its digits stand behind that. -/
theorem exists_ofText_eq (text : List Char) (position : Nat) :
    ∃ negative start, start = position + (Binary64.writeSign negative).length ∧
      (if text[position]? = some '-' then position + 1 else position) = start ∧
      Numeral.ofText (text.drop position) = Numeral.ofUnsigned negative (text.drop start) := by
  rw [← List.head?_drop]
  cases hrest : text.drop position with
  | nil => exact ⟨false, position, rfl, rfl, by rw [hrest]; rfl⟩
  | cons c rest =>
    by_cases hc : c = '-'
    · subst hc
      refine ⟨true, position + 1, rfl, rfl, ?_⟩
      rw [List.drop_add_one_eq_tail_drop, hrest]
      rfl
    · refine ⟨false, position, rfl, ?_, ?_⟩
      · simp [hc]
      · rw [hrest, Numeral.ofText]
        rintro tail heq
        exact hc (List.cons.inj heq).1

/-- The digits of a number end where the stretch of digits does, and a point with the digits
    behind it is looked for there. -/
theorem ofUnsigned_drop (negative : Bool) (text : List Char) (start : Nat) :
    Numeral.ofUnsigned negative (text.drop start) =
      ⟨negative, (text.drop start).takeWhile Char.isDigit,
        Numeral.fractionOf (text.drop (stretchEnd Char.isDigit text start))⟩ := by
  rw [Numeral.ofUnsigned, drop_stretchEnd]

theorem length_text (negative : Bool) (whole fraction : List Char) :
    (Numeral.text ⟨negative, whole, fraction⟩).length =
      (Binary64.writeSign negative).length + whole.length + (Numeral.pointed fraction).length := by
  rw [Numeral.text, List.length_append, List.length_append]

theorem number?_eq (text : List Char) (position : Nat) :
    number? text position = Lexeme.number? (text.drop position) := by
  obtain ⟨negative, start, hstart, hsign, hnumeral⟩ := exists_ofText_eq text position
  have hfront := Lexeme.text_ofText_isPrefix (text.drop position)
  have hproper := @Lexeme.proper_ofUnsigned negative (text.drop start)
  rw [ofUnsigned_drop] at hnumeral hproper
  rw [hnumeral] at hfront
  have hcut := extract_add_length hfront
  have hstop := stretchEnd_eq Char.isDigit text start
  rw [number?, Lexeme.number?, hnumeral]
  simp only [hsign, point_iff, Lexeme.ofNumeral?]
  -- Both sides now ask the same of the digits, and only the ends of what is cut out are left.
  generalize (text.drop start).takeWhile Char.isDigit = whole at *
  generalize stretchEnd Char.isDigit text start = stop at *
  split
  · next hfraction =>
    have hend : stretchEnd Char.isDigit text (stop + 2) =
        position +
          (Numeral.text ⟨negative, whole, Numeral.fractionOf (text.drop stop)⟩).length := by
      rw [stretchEnd_point hfraction, length_text, Numeral.pointed_of_ne_nil hfraction,
        List.length_cons]
      omega
    rw [hend, hcut, (hproper (.inr hfraction)).ofText_text]
  · next hfraction =>
    rw [Decidable.not_not.1 hfraction] at hcut hproper ⊢
    have hend : stop = position + (Numeral.text ⟨negative, whole, []⟩).length := by
      rw [length_text, Numeral.pointed, List.length_nil]
      omega
    have hnone : stop = start ↔ whole = [] := by
      rw [hstop, Nat.add_eq_left, List.length_eq_zero_iff]
    by_cases hwhole : whole = []
    · rw [if_pos (hnone.2 hwhole), if_neg (not_not.2 hwhole)]
    · rw [if_neg (mt hnone.1 hwhole), if_pos hwhole, hend, hcut,
        (hproper (.inl hwhole)).ofText_text]

theorem read?_eq (text : List Char) (position : Nat) :
    read? text position = Lexeme.read? (text.drop position) := by
  rw [read?, word?_eq, number?_eq, operator?_eq, Lexeme.read?]

/-- The lexeme of one family at a position, with its column. -/
def lexemeAt (family : Content.Family) (text : List Char) (position : Nat) :
    Except Content.PositionError (Option Placed) :=
  let found (lexeme : Option Lexeme) := lexeme.map (Placed.mk (position + 1))
  match family with
  | .number => .ok (found (number? text position))
  | .word => if position < text.length then .ok (found (word? text position)) else .error .pastEnd
  | .operator =>
    if position < text.length then .ok (found (operator? text position)) else .error .pastEnd

theorem lexemeAt_eq (family : Content.Family) (text : List Char) (position : Nat) :
    lexemeAt family text position = Content.lexemeAt family text position := by
  have hend : text.drop position = [] ↔ ¬ position < text.length := by
    rw [List.drop_eq_nil_iff, Nat.not_lt]
  cases family with
  | number => rw [lexemeAt, Content.lexemeAt, number?_eq]
  | word => simp only [lexemeAt, Content.lexemeAt, hend, word?_eq, ite_not]
  | operator => simp only [lexemeAt, Content.lexemeAt, hend, operator?_eq, ite_not]

-- ════════════════════════════════════════════════════════════════════════
-- The content of a line
-- ════════════════════════════════════════════════════════════════════════

/-- The content of a line from a position on. Blanks are passed over one by one, and a comment ends
    the content. -/
def content (text : List Char) (position : Nat) : Content :=
  if h : position < text.length then
    if isBlank text[position] then content text (position + 1)
    else if text[position] = commentMark then ⟨[], none⟩
    else
      match hread : read? text position with
      | none => ⟨[], some ⟨position + 1, text[position]⟩⟩
      | some lexeme =>
        (content text (position + lexeme.text.length)).cons ⟨position + 1, lexeme⟩
  else ⟨[], none⟩
termination_by text.length - position
decreasing_by
  · omega
  -- The position moves on, as no lexeme is empty.
  · have hne := Lexeme.text_ne_nil_of_read? (read?_eq text position ▸ hread)
    have hpos := List.length_pos_iff.2 hne
    omega

theorem content_eq (text : List Char) (position : Nat) :
    content text position = Content.ofLine text position := by
  fun_induction content text position with
  | case1 position h hblank ih =>
    rw [ih, Content.ofLine, Content.ofLine, List.drop_eq_getElem_cons h,
      Content.read_cons_of_isBlank hblank]
  | case2 position h hblank hcomment =>
    rw [Content.ofLine, List.drop_eq_getElem_cons h, hcomment, Content.read_comment]
  | case3 position h hblank hcomment hread =>
    rw [read?_eq, List.drop_eq_getElem_cons h] at hread
    rw [Content.ofLine, List.drop_eq_getElem_cons h,
      Content.read_cons_of_read?_eq_none (Bool.eq_false_iff.2 hblank) hcomment hread]
  | case4 position h hblank hcomment lexeme hread ih =>
    rw [read?_eq, List.drop_eq_getElem_cons h] at hread
    rw [ih, Content.ofLine, Content.ofLine, Nat.add_right_comm, ← List.drop_drop,
      List.drop_eq_getElem_cons h,
      Content.read_cons_of_read? (Bool.eq_false_iff.2 hblank) hcomment hread]
  | case5 position h =>
    rw [Content.ofLine, List.drop_eq_nil_of_le (Nat.le_of_not_lt h), Content.read_nil]

end ByPosition

end Offside
