import Mathlib.Data.List.Basic
import Mathlib.Data.List.TakeWhile
import Offside.Proofs.Layout.Brackets
import Offside.Proofs.Layout.History

/-!
# The blocks of a text

In a text that is read without failure the layout tokens are brackets, and they enclose what
the widths of the lines say: a line opens a block when it is wider than the line before, and
its block goes on as long as the lines are at least as wide.
-/

namespace Offside

/-- A token of the text of a line: a lexeme, or the end of the line. -/
def Token.isOfLine (token : Token) : Bool :=
  token.kind = .layout .newline || !token.kind.isStructural

theorem isOfLine_of_not_isStructural {token : Token} (h : token.isStructural = false) :
    token.isOfLine = true := by
  rw [Token.isStructural] at h
  rw [Token.isOfLine, h, Bool.not_false, Bool.or_true]

theorem isOfLine_of_newline {token : Token} (h : token.kind = .layout .newline) :
    token.isOfLine = true := by
  rw [Token.isOfLine, decide_eq_true h, Bool.true_or]

def onLine (number : Nat) (tokens : List Token) : List Token :=
  tokens.filter fun token => token.line = number

/-- The tokens of the text of one line: its lexemes and its end. -/
def textOn (number : Nat) (tokens : List Token) : List Token :=
  (onLine number tokens).filter Token.isOfLine

/-- A token that carries the number of one of some lines. -/
def Token.isOn (lines : List CodeLine) (token : Token) : Bool :=
  lines.any fun line => token.line = line.number

/-- The tokens of the text of some lines. -/
def ofLines (lines : List CodeLine) (tokens : List Token) : List Token :=
  (tokens.filter Token.isOfLine).filter (Token.isOn lines)

/-- A pair of brackets encloses the text of a line and of those behind it that are at least as
    wide, and no other. It is closed on the line that comes next, if need be behind the end. -/
structure BracketPair.Encloses {tokens : List Token} (pair : BracketPair tokens)
    (line : CodeLine) (after : List CodeLine) (lastNumber : Nat) : Prop where
  inner_eq : pair.inner.filter Token.isOfLine =
    ofLines (line :: after.takeWhile (line.width ≤ ·.width)) tokens
  back_eq : pair.back.filter Token.isOfLine =
    ofLines (after.dropWhile (line.width ≤ ·.width)) tokens
  closing_line : pair.closing.line =
    (((after.dropWhile (line.width ≤ ·.width)).head?.map CodeLine.number).getD lastNumber : Nat)

section

variable {strict : Bool} {file : Option String} {lines : List CodeLine}
  {blocks last : OpenBlocks}

theorem filter_isOfLine_marks (origin : Origin) (shift : OpenBlocks.Shift) :
    (shift.marks origin).filter Token.isOfLine = [] := by
  cases shift with
  | opened => rfl
  | closed count =>
    rw [OpenBlocks.Shift.marks, List.filter_replicate]
    rfl

theorem filter_isOfLine_contentTokens (file : Option String) (line : CodeLine) :
    (line.contentTokens file).filter Token.isOfLine = line.contentTokens file := by
  refine List.filter_eq_self.2 ?_
  intro token hmem
  obtain hkind | hkind := isStructural_contentTokens hmem
  · exact isOfLine_of_newline hkind
  · exact isOfLine_of_not_isStructural hkind

theorem filter_isOfLine_closingTokens (origin : Origin) (marksEnd : Bool) (blocks : OpenBlocks) :
    (closingTokens origin marksEnd blocks).filter Token.isOfLine = [] := by
  rw [closingTokens, List.filter_append, List.filter_replicate]
  cases marksEnd <;> rfl

/-- Without layout, a passage is the contents of its lines one after the other. -/
theorem filter_isOfLine_passAll (hok : (passAll strict file lines blocks).outcome = .ok last) :
    (passAll strict file lines blocks).tokens.filter Token.isOfLine =
      lines.flatMap (·.contentTokens file) := by
  induction lines generalizing blocks with
  | nil => rfl
  | cons line rest ih =>
    obtain ⟨next, shift, -, -, hrest, htokens⟩ := outcome_passAll_cons_eq_ok hok
    rw [htokens, List.filter_append, List.filter_append, filter_isOfLine_marks,
      filter_isOfLine_contentTokens, ih hrest, List.nil_append, List.flatMap_cons]

-- A line contributes all of its tokens or none, by its number.

theorem filter_isOn_of_subset {part : List CodeLine} (h : lines ⊆ part) :
    (lines.flatMap (·.contentTokens file)).filter (Token.isOn part) =
      lines.flatMap (·.contentTokens file) := by
  refine List.filter_eq_self.2 ?_
  intro token hmem
  obtain ⟨own, hown, hmem⟩ := List.mem_flatMap.1 hmem
  rw [Token.isOn, List.any_eq_true]
  exact ⟨own, h hown, decide_eq_true (line_contentTokens hmem)⟩

theorem filter_isOn_of_ne {part : List CodeLine}
    (h : ∀ other ∈ lines, ∀ own ∈ part, other.number ≠ own.number) :
    (lines.flatMap (·.contentTokens file)).filter (Token.isOn part) = [] := by
  rw [List.filter_eq_nil_iff]
  intro token hmem hany
  obtain ⟨other, hother, hmem⟩ := List.mem_flatMap.1 hmem
  obtain ⟨own, hown, heq⟩ := List.any_eq_true.1 hany
  have hline := line_contentTokens hmem
  have hne := h other hother own hown
  rw [decide_eq_true_eq] at heq
  omega

/-- What a line does to one of the open blocks, with `upper` inside it: a line that is at least
    as wide leaves it open, and any other closes it after those inside. -/
theorem resolve_open_block {upper lower : List (List Char)} {indent text : List Char}
    {next : OpenBlocks} {shift : OpenBlocks.Shift} (hn : blocks.Nested)
    (hsplit : blocks.indents = upper ++ indent :: lower)
    (hresolve : blocks.resolve strict text = .ok (next, shift)) (origin : Origin) :
    (indent.length ≤ text.length ∧ ∃ inside, next.indents = inside ++ indent :: lower ∧
      Walks upper.length (shift.marks origin) inside.length) ∨
    (text.length < indent.length ∧ ∃ more, shift.marks origin =
      List.replicate upper.length (origin.mark .dedent) ++
        origin.mark .dedent :: List.replicate more (origin.mark .dedent)) := by
  have hnext := hn.resolve hresolve
  obtain ⟨inner, hinner, hwider, -, hwidth, -, rfl⟩ | ⟨hwidth, -, rfl, rfl⟩ :=
    OpenBlocks.resolve_eq_ok hresolve
  · rw [hsplit] at hinner
    obtain ⟨rest, rfl, htail⟩ | ⟨rest, hupper, htail⟩ := List.append_eq_append_iff.1 hinner
    · cases rest with
      | nil =>
        have hkept : next.indents = indent :: lower := htail.symm
        refine .inl ⟨?_, [], hkept, ?_⟩
        · have hmem : indent ∈ next.indents := by simp [hkept]
          have hlevel := hnext.le_width (OpenBlocks.mem_levels.2 (.inr ⟨indent, hmem, rfl⟩))
          omega
        · have hwalk := walks_replicate 0 upper.length origin
          rw [Nat.zero_add] at hwalk
          rwa [List.append_nil]
      | cons opener rest =>
        obtain ⟨rfl, -⟩ := List.cons.inj htail
        refine .inr ⟨hwider indent (by simp), rest.length, ?_⟩
        rw [OpenBlocks.Shift.marks, List.length_append, List.length_cons, List.replicate_add,
          List.replicate_succ]
    · have hmem : indent ∈ next.indents := by simp [htail]
      have hlevel := hnext.le_width (OpenBlocks.mem_levels.2 (.inr ⟨indent, hmem, rfl⟩))
      refine .inl ⟨by omega, rest, htail, ?_⟩
      rw [hupper, List.length_append, Nat.add_comm]
      exact walks_replicate _ _ _
  · have hmem : indent ∈ blocks.indents := by simp [hsplit]
    have hlevel := hn.le_width (OpenBlocks.mem_levels.2 (.inr ⟨indent, hmem, rfl⟩))
    refine .inl ⟨by omega, text :: upper, ?_, walks_indent _ _⟩
    rw [hsplit, List.cons_append]

/-- A block that is open in front of some lines is closed in front of the first line narrower
    than its opener, or else behind the last line. The induction is on the lines, and `upper`
    are the blocks inside the one in question, which may come and go. -/
theorem exists_closing {upper lower : List (List Char)} {indent : List Char}
    (hn : blocks.Nested) (hsplit : blocks.indents = upper ++ indent :: lower)
    (hok : (passAll strict file lines blocks).outcome = .ok last) (origin : Origin)
    (marksEnd : Bool) :
    ∃ inner closing back,
      (passAll strict file lines blocks).tokens ++ closingTokens origin marksEnd last =
        inner ++ closing :: back ∧
      closing.kind = .layout .dedent ∧ Walks upper.length inner 0 ∧
      inner.filter Token.isOfLine =
        (lines.takeWhile (indent.length ≤ ·.width)).flatMap (·.contentTokens file) ∧
      back.filter Token.isOfLine =
        (lines.dropWhile (indent.length ≤ ·.width)).flatMap (·.contentTokens file) ∧
      closing.line = (((lines.dropWhile (indent.length ≤ ·.width)).head?.map
        CodeLine.number).getD origin.line : Nat) := by
  induction lines generalizing blocks upper with
  | nil =>
    cases hok
    have hdepth : last.depth = upper.length + (lower.length + 1) := by
      rw [OpenBlocks.depth, hsplit]
      simp
    refine ⟨List.replicate upper.length (origin.mark .dedent), origin.mark .dedent,
      List.replicate lower.length (origin.mark .dedent) ++
        if marksEnd then [origin.mark .endOfText] else [], ?_, rfl, ?_, ?_, ?_, rfl⟩
    · rw [closingTokens, hdepth, List.replicate_add, List.replicate_succ]
      simp [passAll]
    · have hwalk := walks_replicate 0 upper.length origin
      rwa [Nat.zero_add] at hwalk
    · rw [List.filter_replicate]
      rfl
    · rw [List.filter_append, List.filter_replicate]
      cases marksEnd <;> rfl
  | cons line rest ih =>
    obtain ⟨next, shift, hresolve, -, hrest, htokens⟩ := outcome_passAll_cons_eq_ok hok
    rcases resolve_open_block hn hsplit hresolve (line.origin file) with
      ⟨hle, inside, hinside, hwalk⟩ | ⟨hlt, more, hmarks⟩
    · have hwide : indent.length ≤ line.width := hle
      simp only [List.takeWhile_cons, List.dropWhile_cons, hwide, decide_true, if_true]
      obtain ⟨inner, closing, back, hall, hkind, hinner, hin, hback, hline⟩ :=
        ih (hn.resolve hresolve) hinside hrest
      refine ⟨shift.marks (line.origin file) ++ line.contentTokens file ++ inner, closing, back,
        ?_, hkind, (hwalk.append (walks_contentTokens _ _ _)).append hinner, ?_, hback, hline⟩
      · rw [htokens, List.append_assoc, hall]
        simp only [List.append_assoc]
      · rw [List.flatMap_cons, List.filter_append, List.filter_append, filter_isOfLine_marks,
          filter_isOfLine_contentTokens, hin, List.nil_append]
    · have hnarrow : ¬ indent.length ≤ line.width := Nat.not_le.2 hlt
      simp only [List.takeWhile_cons, List.dropWhile_cons, hnarrow, decide_false,
        Bool.false_eq_true, if_false]
      refine ⟨List.replicate upper.length ((line.origin file).mark .dedent),
        (line.origin file).mark .dedent,
        List.replicate more ((line.origin file).mark .dedent) ++ (line.contentTokens file ++
          ((passAll strict file rest next).tokens ++ closingTokens origin marksEnd last)),
        ?_, rfl, ?_, ?_, ?_, rfl⟩
      · rw [htokens, hmarks]
        simp only [List.append_assoc, List.cons_append]
      · have hwalk := walks_replicate 0 upper.length (line.origin file)
        rwa [Nat.zero_add] at hwalk
      · rw [List.filter_replicate]
        rfl
      · rw [List.filter_append, List.filter_append, List.filter_append, List.filter_replicate,
          filter_isOfLine_contentTokens, filter_isOfLine_passAll hrest,
          filter_isOfLine_closingTokens, List.append_nil]
        rfl

theorem indents_contentTokens (file : Option String) (line : CodeLine) :
    indents (line.contentTokens file) = 0 := by
  refine List.countP_eq_zero.2 ?_
  intro token hmem
  simpa using (kind_ne_of_mem_contentTokens hmem).1

/-- The only opening bracket that a line can have is the one that opens its block. -/
theorem eq_mark_of_mem {line : CodeLine} {shift : OpenBlocks.Shift} {token : Token}
    (h : token ∈ shift.marks (line.origin file) ++ line.contentTokens file)
    (hkind : token.kind = .layout .indent) :
    shift = .opened ∧ token = (line.origin file).mark .indent := by
  obtain h | h := List.mem_append.1 h
  · cases shift with
    | opened => exact ⟨rfl, List.mem_singleton.1 h⟩
    | closed count =>
      rw [List.eq_of_mem_replicate h] at hkind
      cases hkind
  · have hnone := List.countP_eq_zero.1 (indents_contentTokens file line) token h
    exact absurd (decide_eq_true hkind) hnone

theorem indents_marks (origin : Origin) (shift : OpenBlocks.Shift) :
    indents (shift.marks origin) = if shift = .opened then 1 else 0 := by
  cases shift with
  | opened => rfl
  | closed count => simp [indents, OpenBlocks.Shift.marks, List.countP_replicate, Origin.mark]

end

section

variable {text : String} {file : Option String} {options : Options} {tokens : List Token}
  {before after : List CodeLine} {line : CodeLine}

/-- Without layout, text that is read without failure is the contents of its code lines. -/
theorem filter_isOfLine_of_tokenize (h : tokenize text file options = .ok tokens) :
    tokens.filter Token.isOfLine = (codeLines text).flatMap (·.contentTokens file) := by
  obtain ⟨last, houtcome, rfl⟩ := tokenize_eq_ok_iff.1 h
  rw [List.filter_append, filter_isOfLine_passAll houtcome, filter_isOfLine_closingTokens,
    List.append_nil]

/-- Among the contents of all code lines, those of some lines can be told by their numbers. -/
theorem filter_isOn_codeLines {front part back : List CodeLine}
    (hlines : codeLines text = front ++ part ++ back) :
    ((codeLines text).flatMap (·.contentTokens file)).filter (Token.isOn part) =
      part.flatMap (·.contentTokens file) := by
  have hpairs := pairwise_number_codeLines text
  rw [hlines, List.pairwise_append, List.pairwise_append] at hpairs
  obtain ⟨⟨-, -, hfront⟩, -, hback⟩ := hpairs
  have hbefore : (front.flatMap (·.contentTokens file)).filter (Token.isOn part) = [] := by
    refine filter_isOn_of_ne ?_
    intro other hmem own hown
    exact Nat.ne_of_lt (hfront other hmem own hown)
  have hafter : (back.flatMap (·.contentTokens file)).filter (Token.isOn part) = [] := by
    refine filter_isOn_of_ne ?_
    intro other hmem own hown
    exact Nat.ne_of_gt (hback own (List.mem_append_right _ hown) other hmem)
  rw [hlines, List.flatMap_append, List.flatMap_append, List.filter_append, List.filter_append,
    hbefore, hafter, filter_isOn_of_subset (List.Subset.refl part), List.nil_append,
    List.append_nil]

theorem ofLines_of_tokenize {front part back : List CodeLine}
    (h : tokenize text file options = .ok tokens)
    (hlines : codeLines text = front ++ part ++ back) :
    ofLines part tokens = part.flatMap (·.contentTokens file) := by
  rw [ofLines, filter_isOfLine_of_tokenize h, filter_isOn_codeLines hlines]

theorem onLine_append (number : Nat) (front back : List Token) :
    onLine number (front ++ back) = onLine number front ++ onLine number back :=
  List.filter_append _ _

theorem onLine_eq_nil {number : Nat} (h : ∀ token ∈ tokens, token.line ≠ number) :
    onLine number tokens = [] := by
  rw [onLine, List.filter_eq_nil_iff]
  intro token hmem
  rw [decide_eq_true_eq]
  exact h token hmem

theorem onLine_marks_append_contentTokens (file : Option String) (line : CodeLine)
    (shift : OpenBlocks.Shift) :
    onLine line.number (shift.marks (line.origin file) ++ line.contentTokens file) =
      shift.marks (line.origin file) ++ line.contentTokens file := by
  refine List.filter_eq_self.2 ?_
  intro token hmem
  rw [decide_eq_true_eq]
  obtain hmem | hmem := List.mem_append.1 hmem
  · exact line_marks hmem
  · exact line_contentTokens hmem

/-- On a code line stand its layout and its content. -/
theorem exists_onLine_of_tokenize (h : tokenize text file options = .ok tokens)
    (hlines : codeLines text = before ++ line :: after) :
    ∃ shift : OpenBlocks.Shift, (shift = .opened ↔ lastWidth before < line.width) ∧
      onLine line.number tokens = shift.marks (line.origin file) ++ line.contentTokens file := by
  obtain ⟨hearlier, hlater⟩ := number_lt_of_codeLines_eq hlines
  obtain ⟨blocks, next, last, shift, hbefore, hresolve, -, rfl⟩ := exists_split_of_tokenize h hlines
  have hlength := (number_bounds_of_codeLines_eq hlines).2
  refine ⟨shift, (records_nil.passAll hbefore).opened_iff hresolve, ?_⟩
  have hfront : onLine line.number (passAll options.isStrict file before ∅).tokens = [] :=
    onLine_eq_nil fun token hmem => Int.ne_of_lt (line_lt_of_mem_passAll hearlier hmem)
  have hback : onLine line.number ((passAll options.isStrict file after next).tokens ++
      closingTokens ⟨1 + (Line.split text.toList).length, file⟩ options.marksEnd last) = [] := by
    refine onLine_eq_nil ?_
    intro token hmem
    obtain hmem | hmem := List.mem_append.1 hmem
    · exact Int.ne_of_gt (le_line_of_mem_passAll hlater hmem)
    · rw [line_closingTokens hmem]
      simp only
      omega
  rw [onLine_append, onLine_append, hfront, onLine_marks_append_contentTokens, hback,
    List.nil_append, List.append_nil]

theorem indents_onLine_of_tokenize (h : tokenize text file options = .ok tokens)
    (hlines : codeLines text = before ++ line :: after) :
    indents (onLine line.number tokens) = if lastWidth before < line.width then 1 else 0 := by
  obtain ⟨shift, hopened, honLine⟩ := exists_onLine_of_tokenize h hlines
  rw [honLine, indents_append, indents_contentTokens, indents_marks, Nat.add_zero]
  simp only [hopened]

/-- A line begins with an opening bracket just when it is wider than the line before. -/
theorem head_onLine_of_tokenize (h : tokenize text file options = .ok tokens)
    (hlines : codeLines text = before ++ line :: after) :
    (onLine line.number tokens).head?.map Token.kind = some (.layout .indent) ↔
      lastWidth before < line.width := by
  constructor
  · intro hhead
    obtain ⟨opening, hopening, hkind⟩ := Option.map_eq_some_iff.1 hhead
    have hsome : indents (onLine line.number tokens) ≠ 0 := by
      refine Nat.ne_of_gt (List.countP_pos_iff.2 ⟨opening, List.mem_of_head? hopening, ?_⟩)
      exact decide_eq_true hkind
    rw [indents_onLine_of_tokenize h hlines] at hsome
    by_contra hnot
    exact hsome (if_neg hnot)
  · intro hwider
    obtain ⟨shift, hopened, honLine⟩ := exists_onLine_of_tokenize h hlines
    rw [honLine, hopened.2 hwider]
    rfl

/-- The opening bracket of a line occurs once among all tokens, and the pair that it belongs to
    encloses the line and those behind it that are at least as wide. -/
theorem exists_encloses (h : tokenize text file options = .ok tokens)
    (hlines : codeLines text = before ++ line :: after) (hwider : lastWidth before < line.width) :
    ∃ pair : BracketPair tokens, pair.opening = (line.origin file).mark .indent ∧
      pair.opening ∉ pair.front ∧ pair.opening ∉ pair.inner ++ pair.closing :: pair.back ∧
      pair.Encloses line after (1 + (Line.split text.toList).length) := by
  obtain ⟨hearlier, hlater⟩ := number_lt_of_codeLines_eq hlines
  obtain ⟨blocks, next, last, shift, hbefore, hresolve, hafter, htokens⟩ :=
    exists_split_of_tokenize h hlines
  have hrecords := records_nil.passAll hbefore
  obtain rfl : shift = .opened := (hrecords.opened_iff hresolve).2 hwider
  have hnested := hrecords.nested.resolve hresolve
  have hopen : next.indents = [] ++ line.indent :: blocks.indents := by
    obtain ⟨closed, -, -, -, -, -, hshift⟩ | ⟨-, -, rfl, -⟩ := OpenBlocks.resolve_eq_ok hresolve
    · cases hshift
    · rfl
  obtain ⟨inner, closing, back, hall, hcloses, hwalk, hinner, hback, hline⟩ :=
    exists_closing hnested hopen hafter ⟨1 + (Line.split text.toList).length, file⟩ options.marksEnd
  rw [hall] at htokens
  have hpair : tokens = (passAll options.isStrict file before ∅).tokens ++
      (line.origin file).mark .indent :: (line.contentTokens file ++ inner ++ closing :: back) := by
    rw [htokens, OpenBlocks.Shift.marks]
    simp only [List.append_assoc, List.cons_append, List.nil_append]
  refine ⟨⟨_, _, _, _, _, hpair, rfl, hcloses, ?_⟩, rfl, ?_, ?_, ?_, ?_, hline⟩
  · exact balanced_iff_walks.2 ((walks_contentTokens 0 file line).append hwalk)
  · intro hmem
    exact Int.lt_irrefl _ (line_lt_of_mem_passAll hearlier hmem)
  · intro hmem
    rw [List.append_assoc, ← hall] at hmem
    obtain hmem | hmem := List.mem_append.1 hmem
    · have hnone := List.countP_eq_zero.1 (indents_contentTokens file line) _ hmem
      exact hnone (decide_eq_true rfl)
    · obtain hmem | hmem := List.mem_append.1 hmem
      · exact Int.lt_irrefl _ (le_line_of_mem_passAll hlater hmem)
      · have hnumber : (line.number : Int) = (1 + (Line.split text.toList).length : Nat) :=
          line_closingTokens hmem
        have hbound := (number_bounds_of_codeLines_eq hlines).2
        omega
  · have hparts : codeLines text = before ++ (line :: after.takeWhile (line.width ≤ ·.width)) ++
        after.dropWhile (line.width ≤ ·.width) := by
      rw [hlines, List.append_assoc, List.cons_append, List.takeWhile_append_dropWhile]
    rw [ofLines_of_tokenize h hparts, List.filter_append, filter_isOfLine_contentTokens, hinner,
      List.flatMap_cons]
    rfl
  · have hparts : codeLines text = (before ++ (line :: after.takeWhile (line.width ≤ ·.width))) ++
        after.dropWhile (line.width ≤ ·.width) ++ [] := by
      rw [hlines, List.append_nil, List.append_assoc, List.cons_append,
        List.takeWhile_append_dropWhile]
    rw [ofLines_of_tokenize h hparts]
    exact hback

/-- In a text that is read without failure the layout tokens are balanced brackets, and they
    stand where the widths of the code lines say: the brackets open at the lines that are wider
    than the line before, and each pair encloses its line and those behind it that are at least
    as wide. -/
theorem layout_encloses (h : tokenize text file options = .ok tokens) :
    Balanced tokens ∧
      (∀ token ∈ tokens, token.kind = .layout .indent →
        ∃ line ∈ codeLines text, token.line = line.number) ∧
      ∀ before line after, codeLines text = before ++ line :: after →
        ((onLine line.number tokens).head?.map Token.kind = some (.layout .indent) ↔
          lastWidth before < line.width) ∧
        indents (onLine line.number tokens) = (if lastWidth before < line.width then 1 else 0) ∧
        (lastWidth before < line.width →
          ∃ pair : BracketPair tokens, pair.opening.line = line.number) ∧
        ∀ pair : BracketPair tokens, pair.opening.line = line.number →
          pair.Encloses line after (1 + (Line.split text.toList).length) := by
  refine ⟨?_, ?_, ?_⟩
  · obtain ⟨last, houtcome, rfl⟩ := tokenize_eq_ok_iff.1 h
    exact balanced_iff_walks.2 ((walks_passAll houtcome).append (walks_closingTokens _ _ _))
  · intro token hmem hkind
    obtain ⟨last, houtcome, rfl⟩ := tokenize_eq_ok_iff.1 h
    obtain hmem | hmem := List.mem_append.1 hmem
    · exact exists_line_of_mem_passAll hmem
    · obtain hclosing | hclosing := kind_closingTokens hmem
      · cases hkind.symm.trans hclosing
      · cases hkind.symm.trans hclosing
  · intro before line after hlines
    refine ⟨head_onLine_of_tokenize h hlines, indents_onLine_of_tokenize h hlines, ?_, ?_⟩
    · intro hwider
      obtain ⟨pair, hopening, -⟩ := exists_encloses h hlines hwider
      exact ⟨pair, by rw [hopening]; rfl⟩
    · intro pair hline
      -- The line holds one opening bracket, so the pair is the one known to enclose it.
      have hmem : pair.opening ∈ onLine line.number tokens :=
        List.mem_filter.2 ⟨pair.opening_mem, decide_eq_true hline⟩
      obtain ⟨shift, hopened, honLine⟩ := exists_onLine_of_tokenize h hlines
      rw [honLine] at hmem
      obtain ⟨rfl, hopening⟩ := eq_mark_of_mem hmem pair.opens
      obtain ⟨known, hknown, hfront, hback, hencloses⟩ :=
        exists_encloses h hlines (hopened.1 rfl)
      have heq : known.front = pair.front := by
        have hsplits := known.tokens_eq.symm.trans pair.tokens_eq
        rw [← hopening.trans hknown.symm] at hfront hback
        exact ((List.append_cons_inj_of_notMem hfront hback).1 hsplits).1
      rwa [← BracketPair.eq_of_front heq]

theorem layout_encloses_nested_blocks :
    ∃ tokens, ∃ pair : BracketPair tokens, tokenize "a\n  b\n    c\n\n  d\ne\n" = .ok tokens ∧
      pair.opening.line = 2 ∧ pair.closing.line = 6 ∧
      pair.inner.filter Token.isOfLine = ofLines
        [⟨2, "  ".toList, ['b']⟩, ⟨3, "    ".toList, ['c']⟩, ⟨5, "  ".toList, ['d']⟩] tokens := by
  have hlines : codeLines "a\n  b\n    c\n\n  d\ne\n" = [⟨1, [], ['a']⟩] ++
      ⟨2, "  ".toList, ['b']⟩ ::
        [⟨3, "    ".toList, ['c']⟩, ⟨5, "  ".toList, ['d']⟩, ⟨6, [], ['e']⟩] := by
    decide +kernel
  obtain ⟨tokens, h⟩ : ∃ tokens, tokenize "a\n  b\n    c\n\n  d\ne\n" = .ok tokens :=
    exists_tokenize_eq_ok (by decide +kernel)
  obtain ⟨-, -, hblocks⟩ := layout_encloses h
  obtain ⟨-, -, hpair, hencloses⟩ := hblocks _ _ _ hlines
  obtain ⟨pair, hopening⟩ := hpair (by decide)
  have hpair := hencloses pair hopening
  exact ⟨tokens, pair, h, hopening, hpair.closing_line, hpair.inner_eq⟩

end

end Offside
