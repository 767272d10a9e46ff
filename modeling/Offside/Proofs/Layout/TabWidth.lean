import Mathlib.Data.List.Forall2
import Offside.Proofs.Layout.BlockStructure
import Offside.Proofs.Text.NumberedLines

/-!
# Independence of the tab width

Where tabs and spaces agree, the blocks of a text do not depend on how wide a tab is. Each
tab in front of a line may be replaced by any number of spaces but none: the open blocks are
chained, so that of two indentations one begins the other, and this order survives the
replacement although all widths change.
-/

namespace Offside

/-- Blanks with each tab replaced by some number of spaces. -/
def expandBlanks (count : Nat) (blanks : List Char) : List Char :=
  blanks.flatMap fun c => if c = '\t' then List.replicate count ' ' else [c]

/-- A piece of a text with the tabs in front of its content replaced. A piece without content
    stays as it is. -/
def expandPiece (count : Nat) (piece : List Char) : List Char :=
  let line := Line.ofPiece piece
  if line.IsCode then expandBlanks count line.indent ++ piece.drop line.indent.length else piece

/-- A text with each tab in front of a code line replaced by some number of spaces. -/
def expandTabs (count : Nat) (text : String) : String :=
  String.ofList (mapLines (expandPiece count) text.toList)

def CodeLine.expand (count : Nat) (line : CodeLine) : CodeLine :=
  { line with indent := expandBlanks count line.indent }

def OpenBlocks.expand (count : Nat) (blocks : OpenBlocks) : OpenBlocks :=
  ⟨blocks.indents.map (expandBlanks count)⟩

/-- The same token, but for the column if the token is from the text of a line. -/
structure Token.SameButColumn (a b : Token) : Prop where
  eq_of_column : b = { a with column := b.column }
  column_eq : a.isOfLine = false → b.column = a.column

section

variable {count : Nat}

theorem expandBlanks_append (count : Nat) (front back : List Char) :
    expandBlanks count (front ++ back) = expandBlanks count front ++ expandBlanks count back :=
  List.flatMap_append

theorem isBlank_expandBlanks {blanks : List Char} (h : ∀ c ∈ blanks, isBlank c = true) :
    ∀ c ∈ expandBlanks count blanks, isBlank c = true := by
  intro c hmem
  obtain ⟨old, hold, hmem⟩ := List.mem_flatMap.1 hmem
  split at hmem
  · rw [List.eq_of_mem_replicate hmem]
    rfl
  · rw [List.mem_singleton.1 hmem]
    exact h old hold

theorem isPrefix_expandBlanks {short long : List Char} (h : short <+: long) :
    expandBlanks count short <+: expandBlanks count long := by
  obtain ⟨rest, rfl⟩ := h
  rw [expandBlanks_append]
  exact List.prefix_append _ _

theorem expandBlanks_ne_nil {blanks : List Char} (hcount : 0 < count) (h : blanks ≠ []) :
    expandBlanks count blanks ≠ [] := by
  cases blanks with
  | nil => exact absurd rfl h
  | cons c rest =>
    intro heq
    obtain ⟨hhead, -⟩ := List.append_eq_nil_iff.1 (List.flatMap_cons.symm.trans heq)
    split at hhead
    · exact Nat.ne_of_gt hcount ((List.replicate_eq_nil_iff _).1 hhead)
    · cases hhead

/-- Of two indentations of which one begins the other, the longer stays longer. -/
theorem length_expandBlanks_lt {short long : List Char} (hcount : 0 < count)
    (h : short <+: long) (hlt : short.length < long.length) :
    (expandBlanks count short).length < (expandBlanks count long).length := by
  obtain ⟨rest, rfl⟩ := h
  have hrest : rest ≠ [] := by
    rintro rfl
    simp at hlt
  have hpos := List.length_pos_iff.2 (expandBlanks_ne_nil hcount hrest)
  rw [expandBlanks_append, List.length_append]
  omega

end

section

variable {count : Nat}

-- Replacing its tabs gives a piece other blanks in front of its content.

theorem expandPiece_eq (count : Nat) (piece : List Char) :
    expandPiece count piece =
      reindentPiece (expandBlanks count (Line.ofPiece piece).indent) piece := rfl

theorem isBlank_expandBlanks_indent (count : Nat) (line : Line) :
    ∀ c ∈ expandBlanks count line.indent, isBlank c = true :=
  isBlank_expandBlanks (isBlank_indent line)

-- What is needed to take the changed text line by line.

theorem not_mem_expandPiece {piece : List Char} (h : '\n' ∉ piece) :
    '\n' ∉ expandPiece count piece :=
  not_mem_reindentPiece (fun _ => isBlank_expandBlanks_indent count _) h

theorem codeLine?_expandPiece (number : Nat) (piece : List Char) :
    (Line.ofPiece (expandPiece count piece)).codeLine? number =
      ((Line.ofPiece piece).codeLine? number).map (CodeLine.expand count) := by
  rw [expandPiece_eq, codeLine?_reindentPiece fun _ => isBlank_expandBlanks_indent count _,
    Line.codeLine?]
  split <;> rfl

theorem length_split_expandTabs (count : Nat) (text : String) :
    (Line.split (expandTabs count text).toList).length = (Line.split text.toList).length := by
  rw [expandTabs, String.toList_ofList, mapLines_eq_mapNumbered]
  exact length_split_mapNumbered
    (fun _ _ h => not_mem_expandPiece (not_mem_of_mem_splitOn (List.mem_of_getElem? h)))
    fun _ _ _ => reindentPiece_eq_nil_iff

/-- The code lines of the new text are those of the old one with their indentations changed. -/
theorem codeLines_expandTabs (count : Nat) (text : String) :
    codeLines (expandTabs count text) = (codeLines text).map (CodeLine.expand count) := by
  rw [expandTabs, mapLines_eq_mapNumbered]
  exact codeLines_mapNumbered
    (fun _ _ h => not_mem_expandPiece (not_mem_of_mem_splitOn (List.mem_of_getElem? h)))
    (fun _ _ _ => reindentPiece_eq_nil_iff) fun index piece _ => codeLine?_expandPiece _ piece

end

section

variable {count : Nat} {indent : List Char} {blocks next last : OpenBlocks}
  {shift : OpenBlocks.Shift}

theorem OpenBlocks.innermost_expand (count : Nat) (blocks : OpenBlocks) :
    (blocks.expand count).innermost = expandBlanks count blocks.innermost := by
  obtain ⟨indents⟩ := blocks
  cases indents <;> rfl

/-- A line that fits chained blocks strictly fits the changed ones, strictly or not, and does the
    same to them. Every comparison of widths is one between indentations of which one begins the
    other, and so it comes out as before. -/
theorem OpenBlocks.resolve_expand (hcount : 0 < count) (hc : blocks.Chained)
    (h : blocks.resolve true indent = .ok (next, shift)) (strict : Bool) :
    (blocks.expand count).resolve strict (expandBlanks count indent) =
      .ok (next.expand count, shift) := by
  obtain ⟨inner, hsplit, hinner, -, -, hrepeats, rfl⟩ | ⟨hwidth, hextends, rfl, rfl⟩ :=
    resolve_eq_ok h
  · have hindent := hrepeats rfl
    have hlonger : ∀ inside ∈ inner, indent <+: inside := by
      intro inside hmem
      rw [Chained, hsplit, List.pairwise_append] at hc
      by_cases hnil : indent = []
      · exact hnil ▸ List.nil_prefix
      · have hfound := innermost_mem_indents (hindent.symm ▸ hnil)
        exact hc.2.2 inside hmem indent (hindent ▸ hfound)
    have hsplit' : (blocks.expand count).indents =
        inner.map (expandBlanks count) ++ (next.expand count).indents := by
      rw [expand, hsplit, List.map_append]
      rfl
    rw [← List.length_map (expandBlanks count)]
    refine resolve_of_repeats hsplit' ?_ ?_
    · intro inside hmem
      obtain ⟨old, hold, rfl⟩ := List.mem_map.1 hmem
      exact length_expandBlanks_lt hcount (hlonger old hold) (hinner old hold)
    · rw [innermost_expand, hindent]
  · have hbegins := hextends rfl
    have hwidth' : (blocks.expand count).width < (expandBlanks count indent).length := by
      rw [OpenBlocks.width, innermost_expand]
      exact length_expandBlanks_lt hcount hbegins hwidth
    have hextends' : (blocks.expand count).innermost <+: expandBlanks count indent := by
      rw [innermost_expand]
      exact isPrefix_expandBlanks hbegins
    exact resolve_of_extends hwidth' hextends'

end

section

variable {count : Nat} {file : Option String} {lines : List CodeLine}
  {blocks last : OpenBlocks}

theorem forall₂_sameButColumn_refl (tokens : List Token) :
    List.Forall₂ Token.SameButColumn tokens tokens :=
  List.forall₂_same.2 fun _ _ => ⟨rfl, fun _ => rfl⟩

theorem sameButColumn_token {placed placed' : Placed} (origin : Origin)
    (hlexeme : placed.lexeme = placed'.lexeme)
    (hkind : placed.lexeme.kind.isStructural = false) :
    (placed.token origin).SameButColumn (placed'.token origin) where
  eq_of_column := by rw [Placed.token, Placed.token, hlexeme]
  column_eq := by
    intro hother
    have hline : (placed.token origin).isOfLine = true := isOfLine_of_not_isStructural hkind
    rw [hother] at hline
    cases hline

theorem sameButColumn_newline (origin : Origin) (column column' : Nat) :
    (origin.mark .newline column).SameButColumn (origin.mark .newline column') where
  eq_of_column := rfl
  column_eq := by
    intro hother
    cases hother

/-- A content that starts in another column has the same lexemes, and a fault if it had one. -/
theorem Content.read_column (column column' : Nat) (text : List Char) :
    List.Forall₂ (fun placed placed' => placed.lexeme = placed'.lexeme ∧
        placed.lexeme.kind.isStructural = false)
      (Content.read column text).lexemes (Content.read column' text).lexemes ∧
    (Content.read column text).fault.isSome = (Content.read column' text).fault.isSome := by
  fun_induction Content.read column text generalizing column' with
  | case1 =>
    rw [Content.read_nil]
    exact ⟨.nil, rfl⟩
  | case2 column c rest hblank ih =>
    rw [Content.read_cons_of_isBlank hblank]
    exact ih _
  | case3 column rest hblank =>
    rw [Content.read_comment]
    exact ⟨.nil, rfl⟩
  | case4 column c rest hblank hcomment hread =>
    rw [Content.read_cons_of_read?_eq_none (Bool.eq_false_iff.2 hblank) hcomment hread]
    exact ⟨.nil, rfl⟩
  | case5 column c rest hblank hcomment lexeme hread ih =>
    rw [Content.read_cons_of_read? (Bool.eq_false_iff.2 hblank) hcomment hread]
    obtain ⟨hlexemes, hfault⟩ := ih (column' + lexeme.text.length)
    exact ⟨.cons ⟨rfl, isStructural_of_read? hread⟩ hlexemes, hfault⟩

theorem sameButColumn_contentTokens (file : Option String) (line : CodeLine) :
    List.Forall₂ Token.SameButColumn (line.contentTokens file)
      ((line.expand count).contentTokens file) := by
  obtain ⟨hlexemes, hfault⟩ :=
    Content.read_column (line.width + 1) ((line.expand count).width + 1) line.body
  refine List.rel_append ?_ ?_
  · rw [List.forall₂_map_left_iff, List.forall₂_map_right_iff]
    exact hlexemes.imp fun _ _ h => sameButColumn_token (line.origin file) h.1 h.2
  · change (line.content.fault.isSome = (line.expand count).content.fault.isSome) at hfault
    rw [← hfault]
    split
    · exact .nil
    · exact .cons (sameButColumn_newline _ _ _) .nil

theorem fault?_expand_eq_none_iff (file : Option String) (line : CodeLine) :
    (line.expand count).fault? file = none ↔ line.fault? file = none := by
  obtain ⟨-, hfault⟩ :=
    Content.read_column (line.width + 1) ((line.expand count).width + 1) line.body
  rw [CodeLine.fault?_eq_none_iff, CodeLine.fault?_eq_none_iff, ← Option.not_isSome_iff_eq_none,
    ← Option.not_isSome_iff_eq_none]
  exact not_congr (Bool.eq_iff_iff.1 hfault).symm

/-- A passage that goes well strictly goes well over the changed lines, strictly or not, with the
    same tokens but for their columns. -/
theorem passAll_expand (hcount : 0 < count) (hc : blocks.Chained)
    (hok : (passAll true file lines blocks).outcome = .ok last) (strict : Bool) :
    (passAll strict file (lines.map (CodeLine.expand count)) (blocks.expand count)).outcome =
        .ok (last.expand count) ∧
      List.Forall₂ Token.SameButColumn (passAll true file lines blocks).tokens
        (passAll strict file (lines.map (CodeLine.expand count)) (blocks.expand count)).tokens := by
  induction lines generalizing blocks with
  | nil =>
    cases hok
    exact ⟨rfl, .nil⟩
  | cons line rest ih =>
    obtain ⟨next, shift, hresolve, hfault, hrest, htokens⟩ := outcome_passAll_cons_eq_ok hok
    obtain ⟨houtcome, hsame⟩ := ih (hc.resolve hresolve) hrest
    have hresolve' : (blocks.expand count).resolve strict (line.expand count).indent =
        .ok (next.expand count, shift) := OpenBlocks.resolve_expand hcount hc hresolve strict
    have hfault' : (line.expand count).fault? file = none :=
      (fault?_expand_eq_none_iff file line).2 hfault
    rw [List.map_cons, passAll_cons_of_ok hresolve' hfault', htokens]
    have hmarks : List.Forall₂ Token.SameButColumn (shift.marks (line.origin file))
        (shift.marks ((line.expand count).origin file)) :=
      forall₂_sameButColumn_refl _
    exact ⟨houtcome, List.rel_append
      (List.rel_append hmarks (sameButColumn_contentTokens file line)) hsame⟩

end

section

variable {text : String} {file : Option String} {options options' : Options}
  {tokens : List Token} {count : Nat}

/-- Where a text is read strictly without failure, its tabs may be replaced by spaces: with the
    tabs in front of its code lines so replaced it is read without failure, strictly or not, to
    the same tokens, and no more than the columns within the lines are different. -/
theorem tokenize_expandTabs (hcount : 0 < count) (hstrict : options.isStrict = true)
    (hend : options'.marksEnd = options.marksEnd)
    (h : tokenize text file options = .ok tokens) :
    ∃ tokens', tokenize (expandTabs count text) file options' = .ok tokens' ∧
      List.Forall₂ Token.SameButColumn tokens tokens' := by
  obtain ⟨last, houtcome, rfl⟩ := tokenize_eq_ok_iff.1 h
  rw [hstrict] at houtcome ⊢
  obtain ⟨hok, hsame⟩ :=
    passAll_expand hcount OpenBlocks.chained_empty houtcome options'.isStrict
  have hclosing : closingTokens ⟨1 + (Line.split (expandTabs count text).toList).length, file⟩
      options'.marksEnd (last.expand count) =
        closingTokens ⟨1 + (Line.split text.toList).length, file⟩ options.marksEnd last := by
    have hdepth : (last.expand count).depth = last.depth := List.length_map _
    rw [closingTokens, closingTokens, length_split_expandTabs, hend, hdepth]
  refine ⟨_, tokenize_eq_ok_iff.2 ⟨last.expand count, ?_, rfl⟩, ?_⟩
  · rw [codeLines_expandTabs]
    exact hok
  · rw [hclosing, codeLines_expandTabs]
    exact List.rel_append hsame (forall₂_sameButColumn_refl _)

theorem tokenize_expandTabs_two_tabs :
    expandTabs 4 "a\n\tb\n\t\tc\td\n\t#\ne" = "a\n    b\n        c\td\n\t#\ne" ∧
      ∃ tokens tokens',
        tokenize "a\n\tb\n\t\tc\td\n\t#\ne" none { strictIndentation := .flag true } =
          .ok tokens ∧
        tokenize "a\n    b\n        c\td\n\t#\ne" = .ok tokens' ∧
        List.Forall₂ Token.SameButColumn tokens tokens' := by
  have htext : expandTabs 4 "a\n\tb\n\t\tc\td\n\t#\ne" =
      "a\n    b\n        c\td\n\t#\ne" := by
    decide +kernel
  obtain ⟨tokens, h⟩ : ∃ tokens, tokenize "a\n\tb\n\t\tc\td\n\t#\ne" none
      { strictIndentation := .flag true } = .ok tokens :=
    exists_tokenize_eq_ok (by decide +kernel)
  obtain ⟨tokens', hok, hsame⟩ :=
    @tokenize_expandTabs _ none { strictIndentation := .flag true } {} tokens 4 (by decide) rfl
      rfl h
  rw [htext] at hok
  exact ⟨htext, tokens, tokens', h, hok, hsame⟩

end

end Offside
