import Mathlib.Data.List.Forall2
import Mathlib.Order.WellFounded
import Offside.Proofs.Content.Columns
import Offside.Proofs.Layout.BlockStructure
import Offside.Proofs.Reading.SideBySide
import Offside.Proofs.Text.NumberedLines

/-!
# The order of widths

Where tabs and spaces need not agree, only the order of the widths of lines matters. The blanks
in front of each code line may be replaced by any others, as long as lines without blanks stay
so, equally wide lines stay equally wide and wider ones stay wider: a width is only ever compared
with other widths and with zero, and every such comparison comes out as before.
-/

namespace Offside

/-- A text with other blanks in front of its code lines, chosen by the number of the line. -/
def reindent (indentFor : Nat → List Char) (text : String) : String :=
  String.ofList (mapNumbered (fun number => reindentPiece (indentFor number)) text.toList)

def CodeLine.reindent (indentFor : Nat → List Char) (line : CodeLine) : CodeLine :=
  { line with indent := indentFor line.number }

/-- The width of the code line with the given number, or zero if there is none. -/
def widthAt (text : String) (number : Int) : Nat :=
  ((codeLines text).find? fun line => line.number = number).elim 0 CodeLine.width

section

variable (f : Nat → Nat)

/-- Open blocks one by one as wide as others, with each width mapped. -/
def OpenBlocks.SameOrder (blocks blocks' : OpenBlocks) : Prop :=
  List.Forall₂ (fun indent indent' => indent'.length = f indent.length) blocks.indents
    blocks'.indents

/-- How far the content of a line moves when the width of the line is mapped. -/
def columnShift (text : String) (number : Int) : Nat :=
  f (widthAt text number) - widthAt text number

/-- A token of the text with each width mapped: what is from the text of a line moves with it. -/
def Token.relabel (text : String) (token : Token) : Token :=
  if token.isOfLine then token.moveRight (columnShift f text token.line) else token

/-- A problem with all the widths in it mapped. -/
def Problem.relabel : Problem → Problem
  | described text => described text
  | unmatchedIndent width levels wording =>
    unmatchedIndent (f width.toNat) (levels.map fun level => (f level.toNat : Int)) wording
  | mixedIndent width levels =>
    mixedIndent (f width.toNat) (levels.map fun level => (f level.toNat : Int))
  | unrecognized character => unrecognized character

/-- A diagnostic about the text with each width mapped. A column in it moves with its line. -/
def Diagnostic.relabel (text : String) (diagnostic : Diagnostic) : Diagnostic :=
  { diagnostic with problem := diagnostic.problem.relabel f }.moveRight
    (columnShift f text (diagnostic.line.getD 0))

end

-- ════════════════════════════════════════════════════════════════════════
-- The lines of the new text
-- ════════════════════════════════════════════════════════════════════════

section

variable {f : Nat → Nat} {indentFor : Nat → List Char} {text : String}

theorem widthAt_number {line : CodeLine} (h : line ∈ codeLines text) :
    widthAt text line.number = line.width := by
  obtain ⟨before, after, hlines⟩ := List.append_of_mem h
  obtain ⟨hbefore, -⟩ := number_lt_of_codeLines_eq hlines
  have hnone : before.find? (fun other => (other.number : Int) = line.number) = none := by
    rw [List.find?_eq_none]
    intro other hmem
    have hlt := hbefore other hmem
    simp only [decide_eq_true_eq]
    omega
  rw [widthAt, hlines, List.find?_append, hnone, Option.none_or, List.find?_cons]
  simp only [decide_true, Option.elim_some]

variable (hindent : ∀ line ∈ codeLines text,
  AllBlank (indentFor line.number) ∧ (indentFor line.number).length = f line.width)
include hindent

-- What is needed to take the changed text line by line.

theorem not_mem_reindentPiece_of_getElem? (index : Nat) (piece : List Char)
    (hpiece : (text.toList.splitOn '\n')[index]? = some piece) :
    '\n' ∉ reindentPiece (indentFor (1 + index)) piece := by
  refine not_mem_reindentPiece ?_ (not_mem_of_mem_splitOn (List.mem_of_getElem? hpiece))
  intro hcode
  exact (hindent _ (mem_codeLines_of_getElem? hpiece hcode)).1

theorem codeLine?_reindentPiece_of_getElem? (index : Nat) (piece : List Char)
    (hpiece : (text.toList.splitOn '\n')[index]? = some piece) :
    (Line.ofPiece (reindentPiece (indentFor (1 + index)) piece)).codeLine? (1 + index) =
      ((Line.ofPiece piece).codeLine? (1 + index)).map (CodeLine.reindent indentFor) := by
  rw [codeLine?_reindentPiece fun hcode => (hindent _ (mem_codeLines_of_getElem? hpiece hcode)).1,
    Line.codeLine?]
  split <;> rfl

theorem length_split_reindent :
    (Line.split (reindent indentFor text).toList).length = (Line.split text.toList).length := by
  rw [reindent, String.toList_ofList]
  exact length_split_mapNumbered (not_mem_reindentPiece_of_getElem? hindent)
    fun _ _ _ => reindentPiece_eq_nil_iff

theorem codeLines_reindent :
    codeLines (reindent indentFor text) = (codeLines text).map (CodeLine.reindent indentFor) :=
  codeLines_mapNumbered (not_mem_reindentPiece_of_getElem? hindent)
    (fun _ _ _ => reindentPiece_eq_nil_iff) (codeLine?_reindentPiece_of_getElem? hindent)

end

-- ════════════════════════════════════════════════════════════════════════
-- Blocks in the same order
-- ════════════════════════════════════════════════════════════════════════

namespace OpenBlocks.SameOrder

variable {f : Nat → Nat} {blocks blocks' : OpenBlocks}

theorem depth_eq (h : SameOrder f blocks blocks') : blocks'.depth = blocks.depth :=
  h.length_eq.symm

theorem width_eq (h : SameOrder f blocks blocks') (hzero : f 0 = 0) :
    blocks'.width = f blocks.width := by
  obtain ⟨indents⟩ := blocks
  obtain ⟨indents'⟩ := blocks'
  cases h with
  | nil => exact hzero.symm
  | cons hindent hrest => exact hindent

theorem levels_eq (h : SameOrder f blocks blocks') (hzero : f 0 = 0) :
    blocks'.levels = blocks.levels.map f := by
  obtain ⟨indents⟩ := blocks
  obtain ⟨indents'⟩ := blocks'
  simp only [SameOrder] at h
  induction h with
  | nil => exact congrArg (fun width => [width]) hzero.symm
  | cons hindent hrest ih => rw [levels_cons, levels_cons, ih, List.map_append, hindent]; rfl

/-- The blocks that stay open at a line correspond to each other, because wider lines stay
    wider. -/
theorem outer (h : SameOrder f blocks blocks') (hf : StrictMono f) (width : Nat) :
    SameOrder f (blocks.outer width) (blocks'.outer (f width)) := by
  obtain ⟨indents⟩ := blocks
  obtain ⟨indents'⟩ := blocks'
  simp only [SameOrder] at h
  induction h with
  | nil => exact .nil
  | @cons indent indent' rest rest' hindent hrest ih =>
    by_cases hlt : width < indent.length
    · have hlt' : f width < indent'.length := hindent ▸ hf hlt
      rw [outer_of_lt hlt, outer_of_lt hlt']
      exact ih
    · have hle' : indent'.length ≤ f width := hindent ▸ hf.monotone (Nat.not_lt.1 hlt)
      rw [outer_of_le (Nat.not_lt.1 hlt), outer_of_le hle']
      exact .cons hindent hrest

variable {indent indent' : List Char} (hf : StrictMono f) (hzero : f 0 = 0)
  (hindent : indent'.length = f indent.length)
include hf hzero hindent

/-- A line that fits does the same to corresponding blocks. -/
theorem resolve {next : OpenBlocks} {shift : Shift} (h : SameOrder f blocks blocks')
    (hok : blocks.resolve false indent = .ok (next, shift)) :
    ∃ next', blocks'.resolve false indent' = .ok (next', shift) ∧ SameOrder f next next' := by
  have houter := h.outer hf indent.length
  simp only [OpenBlocks.resolve, Bool.false_eq_true, false_and, if_false, h.depth_eq,
    houter.depth_eq, houter.width_eq hzero, hindent, hf.injective.eq_iff] at hok ⊢
  split at hok
  · next hequal =>
    cases hok
    exact ⟨_, if_pos hequal, houter⟩
  · next hne =>
    split at hok
    · cases hok
    · next hclosed =>
      cases hok
      rw [if_neg hne, if_neg hclosed]
      exact ⟨_, rfl, .cons hindent h⟩

/-- A line that fits no block fits none of the corresponding blocks, and the report tells their
    widths. -/
theorem resolve_of_error {problem : Problem} (h : SameOrder f blocks blocks')
    (herror : blocks.resolve false indent = .error problem) :
    blocks'.resolve false indent' = .error (problem.relabel f) := by
  have houter := h.outer hf indent.length
  have hlevels : blocks'.levels.map Int.ofNat =
      (blocks.levels.map Int.ofNat).map fun level => (f level.toNat : Int) := by
    rw [h.levels_eq hzero, List.map_map, List.map_map]
    rfl
  simp only [OpenBlocks.resolve, Bool.false_eq_true, false_and, if_false, h.depth_eq,
    houter.depth_eq, houter.width_eq hzero, hindent, hf.injective.eq_iff, hlevels] at herror ⊢
  split at herror
  · cases herror
  · next hne =>
    split at herror
    · next hclosed =>
      cases herror
      rw [if_neg hne, if_pos hclosed]
      rfl
    · cases herror

end OpenBlocks.SameOrder

-- ════════════════════════════════════════════════════════════════════════
-- The new text
-- ════════════════════════════════════════════════════════════════════════

section

variable {f : Nat → Nat} {indentFor : Nat → List Char} {text : String} {file : Option String}
  {line : CodeLine}

theorem map_relabel_of_filter_eq_nil {tokens : List Token}
    (h : tokens.filter Token.isOfLine = []) : tokens.map (Token.relabel f text) = tokens := by
  rw [List.filter_eq_nil_iff] at h
  refine (List.map_congr_left ?_).trans (List.map_id tokens)
  intro token hmem
  exact if_neg (h token hmem)

theorem relabel_of_mem_contentTokens (hline : line ∈ codeLines text) {token : Token}
    (hmem : token ∈ line.contentTokens file) :
    token.relabel f text = token.moveRight (f line.width - line.width) := by
  have hof := List.filter_eq_self.1 (filter_isOfLine_contentTokens file line) token hmem
  rw [Token.relabel, if_pos hof, columnShift, line_contentTokens hmem, widthAt_number hline]

theorem relabel_of_fault? (hline : line ∈ codeLines text) {diagnostic : Diagnostic}
    (h : line.fault? file = some diagnostic) :
    diagnostic.relabel f text = diagnostic.moveRight (f line.width - line.width) := by
  rw [CodeLine.fault?_eq, Option.map_eq_some_iff] at h
  obtain ⟨fault, -, rfl⟩ := h
  show Diagnostic.moveRight (columnShift f text line.number) _ = _
  rw [columnShift, widthAt_number hline]
  rfl

variable (hf : StrictMono f) (hwidth : (indentFor line.number).length = f line.width)
include hf hwidth

theorem width_reindent :
    (line.reindent indentFor).width = line.width + (f line.width - line.width) := by
  have hle := hf.le_apply (x := line.width)
  rw [Nat.add_sub_of_le hle]
  exact hwidth

theorem content_reindent :
    (line.reindent indentFor).content =
      line.content.moveRight (f line.width - line.width) := by
  rw [CodeLine.content, width_reindent hf hwidth, Nat.add_right_comm, Content.read_add]
  rfl

theorem follows_reindent (hline : line ∈ codeLines text) :
    CodeLine.Follows (Token.relabel f text) (Diagnostic.relabel f text) file line
      (line.reindent indentFor) where
  marks_eq := by
    intro shift
    rw [map_relabel_of_filter_eq_nil (filter_isOfLine_marks _ shift)]
    rfl
  contentTokens_eq := by
    rw [List.map_congr_left fun token hmem => relabel_of_mem_contentTokens hline hmem,
      CodeLine.contentTokens, content_reindent hf hwidth, width_reindent hf hwidth,
      Nat.add_right_comm, Content.tokens_moveRight]
    rfl
  fault?_eq := by
    rw [Option.map_congr fun diagnostic h => relabel_of_fault? hline h, CodeLine.fault?,
      content_reindent hf hwidth, Content.problem?_moveRight]
    rfl

end

section

variable {f : Nat → Nat} {indentFor : Nat → List Char} {text : String} {options : Options}

/-- Only the order of the widths matters where tabs and spaces need not agree. Let each code line
    of a text have other blanks in front of it, as many as a strictly increasing function that
    keeps zero makes of its width. The new text is read to the same tokens, on the same lines, and
    what is from the text of a line moves with it. It fails just when the old text does, with the
    same diagnostic: of a line that fits no block it tells the new widths, and of a faulty
    character the new column. -/
theorem stream_reindent (hf : StrictMono f) (hzero : f 0 = 0) (hloose : options.isStrict = false)
    (hindent : ∀ line ∈ codeLines text,
      AllBlank (indentFor line.number) ∧ (indentFor line.number).length = f line.width)
    (file : Option String) :
    (Lexer.ofText (reindent indentFor text) file options).run.stream =
      (Lexer.ofText text file options).run.stream.change (Token.relabel f text)
        (Diagnostic.relabel f text) := by
  have hlines : ∀ line ∈ codeLines text, ∀ blocks blocks', OpenBlocks.SameOrder f blocks blocks' →
      Passage.Follows (Token.relabel f text) (Diagnostic.relabel f text)
        (OpenBlocks.SameOrder f) (line.pass false file blocks)
        ((line.reindent indentFor).pass false file blocks') := by
    intro line hline blocks blocks' hsame
    have hwidth := (hindent line hline).2
    cases hresolve : blocks.resolve false line.indent with
    | error problem =>
      refine CodeLine.follows_pass_of_error hresolve
        (hsame.resolve_of_error hf hzero hwidth hresolve) ?_
      rfl
    | ok result =>
      obtain ⟨next, shift⟩ := result
      obtain ⟨next', hresolve', hnext⟩ := hsame.resolve hf hzero hwidth hresolve
      exact (follows_reindent hf hwidth hline).pass_of_ok hresolve hresolve' hnext
  rw [stream_ofText, stream_ofText, hloose, codeLines_reindent hindent,
    length_split_reindent hindent]
  refine (follows_passAll hlines .nil).close ?_
  intro blocks blocks' hsame
  rw [map_relabel_of_filter_eq_nil (filter_isOfLine_closingTokens _ _ _), closingTokens,
    closingTokens, hsame.depth_eq]

/-- With all widths doubled, and tabs among the blanks, the last line still comes back to a width
    between two blocks. -/
theorem stream_reindent_between_levels :
    ∃ indentFor : Nat → List Char, StrictMono (2 * ·) ∧
      (∀ line ∈ codeLines "a\n  b\n    c\n\t#\n   d", AllBlank (indentFor line.number) ∧
        (indentFor line.number).length = 2 * line.width) ∧
      reindent indentFor "a\n  b\n    c\n\t#\n   d" =
        "a\n \t\t b\n        c\n\t#\n\t\t\t\t\t\td" ∧
      (Lexer.ofText "a\n \t\t b\n        c\n\t#\n\t\t\t\t\t\td").run.stream =
        (Lexer.ofText "a\n  b\n    c\n\t#\n   d").run.stream.change
          (Token.relabel (2 * ·) "a\n  b\n    c\n\t#\n   d")
          (Diagnostic.relabel (2 * ·) "a\n  b\n    c\n\t#\n   d") ∧
      (Lexer.ofText "a\n \t\t b\n        c\n\t#\n\t\t\t\t\t\td").run.ending =
        .failed ⟨.unmatchedIndent 6 [0, 4, 8] none, some 5, none, none⟩ := by
  have hf : StrictMono (2 * · : Nat → Nat) := by
    intro width wider h
    show 2 * width < 2 * wider
    omega
  have hlines : codeLines "a\n  b\n    c\n\t#\n   d" =
      [⟨1, [], ['a']⟩, ⟨2, "  ".toList, ['b']⟩, ⟨3, "    ".toList, ['c']⟩,
        ⟨5, "   ".toList, ['d']⟩] := by
    decide +kernel
  obtain ⟨indentFor, hindent, htext⟩ : ∃ indentFor : Nat → List Char,
      (∀ line ∈ codeLines "a\n  b\n    c\n\t#\n   d", AllBlank (indentFor line.number) ∧
        (indentFor line.number).length = 2 * line.width) ∧
      reindent indentFor "a\n  b\n    c\n\t#\n   d" =
        "a\n \t\t b\n        c\n\t#\n\t\t\t\t\t\td" := by
    refine ⟨fun number => [[], [], " \t\t ".toList, "        ".toList, [],
      "\t\t\t\t\t\t".toList].getD number [], ?_, by decide +kernel⟩
    rw [hlines]
    simp [AllBlank, CodeLine.width, isBlank]
  have hstream := @stream_reindent _ indentFor _ {} hf rfl rfl hindent none
  rw [htext] at hstream
  exact ⟨indentFor, hf, hindent, htext, hstream, by decide +kernel⟩

end

end Offside
