import Offside.Proofs.Layout.History
import Offside.Proofs.Lexemes.Separation
import Offside.Proofs.Reading.Places
import Offside.Proofs.Text.Boundary
import Offside.Proofs.Text.Pieces

/-!
# Laying tokens out again

The tokens of a text can be written down as a text again. Every line end becomes a line feed, the
lexemes of a line are written with blanks between them, and in front of the first one stand
spaces in proportion to the number of open blocks. However the first text was laid out, the second
is read to the same tokens: the blocks that are open at a line are as many as before, although
their indentations are new.
-/

namespace Offside

/-- No lexeme has been handed out since the last line end. -/
def atLineStart (before : List Token) : Bool :=
  before.getLast?.all Token.isStructural

/-- What is written for a token behind some others: a line feed for the end of a line, nothing for
    other layout, and the text of a lexeme with the blanks in front of it. -/
def Token.written (step : Nat) (gap : Nat → List Char) (before : List Token) (token : Token) :
    List Char :=
  match token.kind with
  | .layout .newline => ['\n']
  | .layout _ => []
  | _ =>
    (if atLineStart before then List.replicate (step * (indents before - dedents before)) ' '
      else gap before.length) ++ token.value.toList

/-- The text that is written for some tokens behind others. A line has `step` spaces in front for
    each open block; the gap in front of any other lexeme is chosen by the number of the token. -/
def layOut (step : Nat) (gap : Nat → List Char) : List Token → List Token → List Char
  | _, [] => []
  | before, token :: rest =>
    token.written step gap before ++ layOut step gap (before ++ [token]) rest

/-- Tokens behind which the first lexeme of a line can follow: none has been handed out since the
    last line end, and `depth` blocks are open. -/
structure InFrontOfLine (before : List Token) (depth : Nat) : Prop where
  atLineStart : atLineStart before = true
  indents_eq : indents before = depth + dedents before

/-- The indentations of blocks of which each is `step` spaces deeper than the one around it. -/
def evenIndents (step : Nat) : Nat → List (List Char)
  | 0 => []
  | depth + 1 => List.replicate (step * (depth + 1)) ' ' :: evenIndents step depth

def OpenBlocks.even (step depth : Nat) : OpenBlocks :=
  ⟨evenIndents step depth⟩

-- ════════════════════════════════════════════════════════════════════════
-- Even blocks
-- ════════════════════════════════════════════════════════════════════════

section

variable {step : Nat}

@[simp] theorem OpenBlocks.depth_even (step depth : Nat) : (even step depth).depth = depth := by
  induction depth with
  | zero => rfl
  | succ depth ih => exact congrArg (· + 1) ih

theorem OpenBlocks.innermost_even (step depth : Nat) :
    (even step depth).innermost = List.replicate (step * depth) ' ' := by
  cases depth <;> rfl

theorem exists_evenIndents_add (hstep : 0 < step) (depth more : Nat) :
    ∃ inner, evenIndents step (depth + more) = inner ++ evenIndents step depth ∧
      inner.length = more ∧ ∀ inside ∈ inner, step * depth < inside.length := by
  induction more with
  | zero => exact ⟨[], rfl, rfl, List.forall_mem_nil _⟩
  | succ more ih =>
    obtain ⟨inner, hsplit, hlength, hinner⟩ := ih
    refine ⟨List.replicate (step * (depth + more + 1)) ' ' :: inner, ?_, ?_, ?_⟩
    · rw [← Nat.add_assoc, evenIndents, hsplit]
      rfl
    · rw [List.length_cons, hlength]
    · refine List.forall_mem_cons.2 ⟨?_, hinner⟩
      rw [List.length_replicate]
      exact Nat.mul_lt_mul_of_pos_left (by omega) hstep

/-- Whatever a line does to some blocks, the line that is written for it does to even blocks of
    the same depth. Only the depths matter: an even line comes back to a block just when it stands
    at its depth, and it opens one just when it is one deeper. -/
theorem OpenBlocks.resolve_even (hstep : 0 < step) {strict strict' : Bool} {indent : List Char}
    {blocks next : OpenBlocks} {shift : Shift}
    (h : blocks.resolve strict indent = .ok (next, shift)) :
    (even step blocks.depth).resolve strict' (List.replicate (step * next.depth) ' ') =
      .ok (even step next.depth, shift) := by
  obtain ⟨inner, hsplit, -, -, -, -, rfl⟩ | ⟨-, -, rfl, rfl⟩ := resolve_eq_ok h
  · have hdepth := depth_eq_of_split hsplit
    obtain ⟨closed, heven, hlength, hclosed⟩ :=
      exists_evenIndents_add hstep next.depth inner.length
    rw [hdepth, ← hlength]
    rw [← hlength] at heven
    refine resolve_of_repeats heven ?_ (innermost_even step next.depth)
    rwa [List.length_replicate]
  · have hlt : step * blocks.depth < step * (blocks.depth + 1) :=
      Nat.mul_lt_mul_of_pos_left (Nat.lt_succ_self _) hstep
    apply resolve_of_extends
    · rw [OpenBlocks.width, innermost_even, List.length_replicate, List.length_replicate]
      exact hlt
    · rw [innermost_even]
      exact ⟨List.replicate step ' ', List.replicate_append_replicate⟩

end

-- ════════════════════════════════════════════════════════════════════════
-- What is written for the tokens of a line
-- ════════════════════════════════════════════════════════════════════════

section

variable {step : Nat} {gap : Nat → List Char} {before : List Token}

theorem layOut_append (front back before : List Token) :
    layOut step gap before (front ++ back) =
      layOut step gap before front ++ layOut step gap (before ++ front) back := by
  induction front generalizing before with
  | nil =>
    rw [List.append_nil]
    rfl
  | cons token rest ih =>
    rw [List.cons_append, layOut, layOut, ih, List.append_assoc, List.append_assoc,
      List.singleton_append]

/-- Nothing is written for layout other than line ends. -/
theorem layOut_eq_nil {tokens : List Token}
    (h : ∀ token ∈ tokens, ∃ mark, token.kind = .layout mark ∧ mark ≠ .newline)
    (before : List Token) : layOut step gap before tokens = [] := by
  induction tokens generalizing before with
  | nil => rfl
  | cons token rest ih =>
    obtain ⟨⟨mark, hkind, hmark⟩, hrest⟩ := List.forall_mem_cons.1 h
    rw [layOut, ih hrest, Token.written, hkind, List.append_nil]
    cases mark with
    | newline => exact absurd rfl hmark
    | _ => rfl

/-- Nothing is written for the end of a text. -/
theorem layOut_closingTokens (origin : Origin) (marksEnd : Bool) (blocks : OpenBlocks)
    (before : List Token) :
    layOut step gap before (closingTokens origin marksEnd blocks) = [] := by
  apply layOut_eq_nil
  intro token hmem
  obtain rfl | rfl := eq_mark_of_mem_closingTokens hmem
  · exact ⟨.dedent, rfl, by decide⟩
  · exact ⟨.endOfText, rfl, by decide⟩

theorem written_of_not_isStructural {token : Token} (h : token.isStructural = false) :
    token.written step gap before =
      (if atLineStart before then List.replicate (step * (indents before - dedents before)) ' '
        else gap before.length) ++ token.value.toList := by
  rw [Token.isStructural] at h
  rw [Token.written]
  cases hkind : token.kind with
  | layout mark =>
    rw [hkind] at h
    cases h
  | _ => rfl

theorem atLineStart_concat (before : List Token) (token : Token) :
    atLineStart (before ++ [token]) = token.isStructural := by
  rw [atLineStart, List.getLast?_concat]
  rfl

/-- Behind a lexeme, lexemes are written with gaps between them. -/
theorem layOut_lexemes {lexemes : List Placed} (origin : Origin)
    (hformed : ∀ placed ∈ lexemes, placed.lexeme.Formed) (hstart : atLineStart before = false) :
    layOut step gap before (lexemes.map (·.token origin)) =
      spaced gap before.length (lexemes.map Placed.lexeme) := by
  induction lexemes generalizing before with
  | nil => rfl
  | cons placed rest ih =>
    obtain ⟨hplaced, hrest⟩ := List.forall_mem_cons.1 hformed
    have hkind : (placed.token origin).isStructural = false :=
      isStructural_of_read? hplaced.read?_text
    have hnext : atLineStart (before ++ [placed.token origin]) = false := by
      rw [atLineStart_concat, hkind]
    rw [List.map_cons, List.map_cons, layOut, spaced, written_of_not_isStructural hkind, hstart,
      ih hrest hnext, List.length_append]
    show gap before.length ++ (String.ofList placed.lexeme.text).toList ++ _ = _
    rw [String.toList_ofList]
    rfl

/-- The text that is written for a line: its indentation, its lexemes, and a line feed. -/
theorem layOut_line {first : Placed} {lexemes : List Placed} (origin : Origin) (column : Nat)
    (hfirst : first.lexeme.Formed) (hformed : ∀ placed ∈ lexemes, placed.lexeme.Formed)
    {depth : Nat} (hfront : InFrontOfLine before depth) :
    layOut step gap before
        ((first :: lexemes).map (·.token origin) ++ [origin.mark .newline column]) =
      List.replicate (step * depth) ' ' ++
        (first.lexeme.text ++ spaced gap (before.length + 1) (lexemes.map Placed.lexeme)) ++
          ['\n'] := by
  have hkind : (first.token origin).isStructural = false :=
    isStructural_of_read? hfirst.read?_text
  have hnext : atLineStart (before ++ [first.token origin]) = false := by
    rw [atLineStart_concat, hkind]
  have hopen : indents before - dedents before = depth := by
    rw [hfront.indents_eq, Nat.add_sub_cancel]
  rw [layOut_append, List.map_cons, layOut, written_of_not_isStructural hkind, hfront.atLineStart,
    hopen,
    layOut_lexemes origin hformed hnext, List.length_append]
  show List.replicate (step * depth) ' ' ++ (String.ofList first.lexeme.text).toList ++ _ ++ _ = _
  rw [String.toList_ofList, List.append_assoc (List.replicate _ _)]
  rfl

end

-- ════════════════════════════════════════════════════════════════════════
-- What is written is read
-- ════════════════════════════════════════════════════════════════════════

/-- Blanks and then characters of the alphabet, the first of which is no blank, are a code line:
    there is no carriage return at its end that could be lost. -/
theorem codeLinesFrom_line {indent body : List Char} (hindent : AllBlank indent)
    (hbody : ∀ c ∈ body, inAlphabet c = true) {first : Char} (hhead : body.head? = some first)
    (hfirst : isBlank first = false) (number : Nat) (rest : List Char) :
    codeLinesFrom number (Line.split (indent ++ body ++ '\n' :: rest)) =
      ⟨number, indent, body⟩ :: codeLinesFrom (number + 1) (Line.split rest) := by
  obtain ⟨tail, rfl⟩ := List.head?_eq_some_iff.1 hhead
  have hfeed : '\n' ∉ indent ++ first :: tail := by
    rw [List.mem_append, not_or]
    refine ⟨fun hmem => ?_, fun hmem => ?_⟩
    · exact absurd (hindent _ hmem) (by decide)
    · exact absurd (hbody _ hmem) (by decide)
  have hreturn : (first :: tail).getLast? ≠ some '\r' := by
    intro hlast
    exact absurd (hbody _ (List.mem_of_getLast? hlast)) (by decide)
  have htext : (Line.ofPiece (first :: tail)).text = first :: tail := if_neg hreturn
  have hne : first :: tail ≠ [] := List.cons_ne_nil _ _
  have hlineIndent : (Line.ofPiece (indent ++ first :: tail)).indent = indent := by
    rw [indent_ofPiece_append hindent hne, Line.indent, htext,
      List.takeWhile_cons_of_neg (by simp [hfirst]), List.append_nil]
  have hlineBody : (Line.ofPiece (indent ++ first :: tail)).body = first :: tail := by
    rw [body_ofPiece_append hindent hne, Line.body, htext,
      List.dropWhile_cons_of_neg (by simp [hfirst])]
  have hcode : (Line.ofPiece (indent ++ first :: tail)).IsCode := by
    refine ⟨first, by rw [hlineBody]; rfl, ?_⟩
    rintro rfl
    exact absurd (hbody _ List.mem_cons_self) (by decide)
  rw [Line.split, splitAtNewlines_line hfeed, List.map_cons, codeLinesFrom, if_pos hcode,
    hlineIndent, hlineBody]
  rfl

section

variable {step : Nat} {gap : Nat → List Char}
  (hgap : ∀ index, gap index ≠ [] ∧ AllBlank (gap index))
include hgap

theorem codeLinesFrom_written {first : Lexeme} {lexemes : List Lexeme} (hfirst : first.Formed)
    (hformed : ∀ lexeme ∈ lexemes, lexeme.Formed) (depth index number : Nat) (rest : List Char) :
    codeLinesFrom number (Line.split (List.replicate (step * depth) ' ' ++
        (first.text ++ spaced gap index lexemes) ++ '\n' :: rest)) =
      ⟨number, List.replicate (step * depth) ' ', first.text ++ spaced gap index lexemes⟩ ::
        codeLinesFrom (number + 1) (Line.split rest) := by
  obtain ⟨c, tail, hcons, hblank, -⟩ := hfirst.exists_head
  have hhead : (first.text ++ spaced gap index lexemes).head? = some c := by
    rw [hcons]
    rfl
  refine codeLinesFrom_line ?_ ?_ hhead hblank number rest
  · intro d hd
    rw [List.eq_of_mem_replicate hd]
    rfl
  · rw [List.forall_mem_append]
    refine ⟨hfirst.inAlphabet_of_mem, ?_⟩
    exact inAlphabet_of_mem_spaced (fun index => (hgap index).2) hformed index

end

section

variable {file : Option String} {line line' : CodeLine}

theorem map_unplaced_marks (shift : OpenBlocks.Shift) (origin origin' : Origin) :
    (shift.marks origin).map Token.unplaced = (shift.marks origin').map Token.unplaced := by
  cases shift with
  | opened => rfl
  | closed count =>
    rw [OpenBlocks.Shift.marks, OpenBlocks.Shift.marks, List.map_replicate, List.map_replicate]
    rfl

/-- Lines with the same lexemes hand out the same tokens, but for their places. -/
theorem map_unplaced_contentTokens (hfault : line.content.fault = none)
    (hfault' : line'.content.fault = none)
    (hlexemes : line'.content.lexemes.map Placed.lexeme = line.content.lexemes.map Placed.lexeme) :
    (line'.contentTokens file).map Token.unplaced =
      (line.contentTokens file).map Token.unplaced := by
  have hmap (origin : Origin) (placed : List Placed) :
      (placed.map (·.token origin)).map Token.unplaced = (placed.map Placed.lexeme).map
        fun lexeme => (lexeme.kind, String.ofList lexeme.text, lexeme.literal) := by
    rw [List.map_map, List.map_map]
    rfl
  rw [contentTokens_of_finished hfault, contentTokens_of_finished hfault', List.map_append,
    List.map_append, hmap, hmap, hlexemes]
  rfl

theorem map_unplaced_closingTokens {blocks blocks' : OpenBlocks}
    (hdepth : blocks'.depth = blocks.depth) (origin origin' : Origin) (marksEnd : Bool) :
    (closingTokens origin' marksEnd blocks').map Token.unplaced =
      (closingTokens origin marksEnd blocks).map Token.unplaced := by
  rw [closingTokens, closingTokens, hdepth, List.map_append, List.map_append, List.map_replicate,
    List.map_replicate]
  cases marksEnd <;> rfl

end

section

variable {strict : Bool} {file : Option String} {line : CodeLine} {lines : List CodeLine}
  {blocks next last : OpenBlocks} {shift : OpenBlocks.Shift} {before : List Token}

/-- A line with content that is read to its end is a row of lexemes of the grammar. -/
theorem exists_lexemes (hindent : AllBlank line.indent)
    (hcontent : ¬ WithoutContent (line.indent ++ line.body)) (hfault : line.content.fault = none) :
    ∃ first lexemes, line.content.lexemes = first :: lexemes ∧ first.lexeme.Formed ∧
      ∀ placed ∈ lexemes, placed.lexeme.Formed := by
  have hformed : ∀ placed ∈ line.content.lexemes, placed.lexeme.Formed := by
    intro placed hmem
    obtain ⟨rest, hread⟩ := exists_read?_of_mem_lexemes hmem
    exact Lexeme.formed_of_read? hread
  have hsome := lexemes_ne_nil hindent hcontent hfault (line.origin none)
  rw [ne_eq, List.map_eq_nil_iff] at hsome
  obtain ⟨first, lexemes, hlexemes⟩ := List.exists_cons_of_ne_nil hsome
  rw [hlexemes, List.forall_mem_cons] at hformed
  exact ⟨first, lexemes, hlexemes, hformed⟩

theorem exists_layout_of_mem_marks {origin : Origin} {token : Token}
    (h : token ∈ shift.marks origin) : ∃ mark, token.kind = .layout mark ∧ mark ≠ .newline := by
  obtain rfl | rfl := eq_mark_of_mem_marks h
  · exact ⟨.indent, rfl, by decide⟩
  · exact ⟨.dedent, rfl, by decide⟩

theorem InFrontOfLine.append_marks (h : InFrontOfLine before blocks.depth)
    (hresolve : blocks.resolve strict line.indent = .ok (next, shift)) (origin : Origin) :
    InFrontOfLine (before ++ shift.marks origin) next.depth where
  atLineStart := by
    obtain hnil | ⟨front, token, hmarks⟩ := (shift.marks origin).eq_nil_or_concat'
    · rw [hnil, List.append_nil]
      exact h.atLineStart
    · have hmem : token ∈ shift.marks origin := by
        rw [hmarks]
        exact List.mem_concat_self
      obtain ⟨mark, hkind, -⟩ := exists_layout_of_mem_marks hmem
      rw [hmarks, ← List.append_assoc, atLineStart_concat, Token.isStructural, hkind]
      rfl
  indents_eq := by
    have hwalk := (walks_marks hresolve origin).sum_eq
    have hbefore := h.indents_eq
    rw [indents_append, dedents_append]
    omega

theorem InFrontOfLine.append_contentTokens {depth : Nat} (h : InFrontOfLine before depth)
    (hfault : line.content.fault = none) :
    InFrontOfLine (before ++ line.contentTokens file) depth where
  atLineStart := by
    rw [contentTokens_of_finished hfault, ← List.append_assoc, atLineStart_concat]
    rfl
  indents_eq := by
    have hwalk := (walks_contentTokens depth file line).sum_eq
    have hbefore := h.indents_eq
    rw [indents_append, dedents_append]
    omega

end

section

variable {step : Nat} (hstep : 0 < step) {gap : Nat → List Char}
  (hgap : ∀ index, gap index ≠ [] ∧ AllBlank (gap index))
  {strict : Bool} {file : Option String} {blocks last : OpenBlocks} {before : List Token}
include hstep hgap

/-- What is written for a line is a code line, and the line does to even blocks what the first one
    did, with the same tokens but for their places. -/
theorem exists_written_line {line : CodeLine} {next : OpenBlocks} {shift : OpenBlocks.Shift}
    (hindent : AllBlank line.indent) (hcontent : ¬ WithoutContent (line.indent ++ line.body))
    (hfault : line.content.fault = none)
    (hresolve : blocks.resolve strict line.indent = .ok (next, shift))
    (hfront : InFrontOfLine before blocks.depth) (number : Nat) :
    ∃ line' : CodeLine,
      (∀ rest, codeLinesFrom number (Line.split (layOut step gap before
          (shift.marks (line.origin file) ++ line.contentTokens file) ++ rest)) =
        line' :: codeLinesFrom (number + 1) (Line.split rest)) ∧
      line'.content.fault = none ∧
      (OpenBlocks.even step blocks.depth).resolve strict line'.indent =
        .ok (.even step next.depth, shift) ∧
      (shift.marks (line'.origin file) ++ line'.contentTokens file).map Token.unplaced =
        (shift.marks (line.origin file) ++ line.contentTokens file).map Token.unplaced := by
  obtain ⟨first, lexemes, hlexemes, hfirst, hmore⟩ := exists_lexemes hindent hcontent hfault
  have hmore' : ∀ lexeme ∈ lexemes.map Placed.lexeme, lexeme.Formed :=
    List.forall_mem_map.2 hmore
  have hmarks : layOut step gap before (shift.marks (line.origin file)) = [] :=
    layOut_eq_nil (fun _ hmem => exists_layout_of_mem_marks hmem) before
  have hbehind := hfront.append_marks hresolve (line.origin file)
  have hwritten := @layOut_line step gap _ first lexemes (line.origin file)
    (line.width + line.body.length + 1) hfirst hmore _ hbehind
  rw [← hlexemes, ← contentTokens_of_finished hfault] at hwritten
  refine ⟨⟨number, List.replicate (step * next.depth) ' ', first.lexeme.text ++
    spaced gap ((before ++ shift.marks (line.origin file)).length + 1)
      (lexemes.map Placed.lexeme)⟩, ?_, ?_, ?_, ?_⟩
  · intro rest
    rw [layOut_append, hmarks, List.nil_append, hwritten, List.append_assoc,
      List.singleton_append]
    exact codeLinesFrom_written hgap hfirst hmore' next.depth _ number rest
  · exact (Content.read_text_append_spaced hgap hfirst hmore' _ _).2
  · exact OpenBlocks.resolve_even hstep hresolve
  · rw [List.map_append, List.map_append, map_unplaced_marks shift _ (line.origin file)]
    congr 1
    apply map_unplaced_contentTokens hfault
    · exact (Content.read_text_append_spaced hgap hfirst hmore' _ _).2
    · rw [hlexemes]
      exact (Content.read_text_append_spaced hgap hfirst hmore' _ _).1

/-- What is written for the tokens of some lines is read over even blocks to the same tokens, but
    for their places. -/
theorem passAll_layOut {lines : List CodeLine}
    (hlines : ∀ line ∈ lines,
      AllBlank line.indent ∧ ¬ WithoutContent (line.indent ++ line.body))
    (hok : (passAll strict file lines blocks).outcome = .ok last)
    (hfront : InFrontOfLine before blocks.depth) (number : Nat) :
    ∃ lines', codeLinesFrom number (Line.split
        (layOut step gap before (passAll strict file lines blocks).tokens)) = lines' ∧
      (passAll strict file lines' (.even step blocks.depth)).outcome =
        .ok (.even step last.depth) ∧
      (passAll strict file lines' (.even step blocks.depth)).tokens.map Token.unplaced =
        (passAll strict file lines blocks).tokens.map Token.unplaced := by
  induction lines generalizing blocks before number with
  | nil =>
    cases hok
    exact ⟨[], rfl, rfl, rfl⟩
  | cons line rest ih =>
    obtain ⟨next, shift, hresolve, hfault, hrest, htokens⟩ := outcome_passAll_cons_eq_ok hok
    rw [CodeLine.fault?_eq_none_iff] at hfault
    obtain ⟨⟨hindent, hcontent⟩, hothers⟩ := List.forall_mem_cons.1 hlines
    obtain ⟨line', hline, hfault', hresolve', hsame⟩ :=
      @exists_written_line step hstep gap hgap strict file blocks before line next shift hindent
        hcontent hfault hresolve hfront number
    have hbehind : InFrontOfLine
        (before ++ (shift.marks (line.origin file) ++ line.contentTokens file)) next.depth := by
      rw [← List.append_assoc]
      exact (hfront.append_marks hresolve _).append_contentTokens hfault
    obtain ⟨lines', hlines', houtcome, hsame'⟩ := ih hothers hrest hbehind (number + 1)
    have hfault'' := (@CodeLine.fault?_eq_none_iff file line').2 hfault'
    refine ⟨line' :: lines', ?_, ?_, ?_⟩
    · rw [htokens, layOut_append, hline, hlines']
    · rw [passAll_cons_of_ok hresolve' hfault'']
      exact houtcome
    · rw [passAll_cons_of_ok hresolve' hfault'', htokens, List.map_append, hsame, hsame',
        ← List.map_append]

end

section

variable {text : String} {file : Option String} {options : Options} {tokens : List Token}
  {step : Nat} {gap : Nat → List Char}

/-- A text that is read without failure can be laid out again from its tokens, with any indentation
    in proportion to the open blocks and any gaps between the lexemes of a line. What is written is
    read without failure, to the same tokens but for their places. -/
theorem tokenize_layOut (hstep : 0 < step)
    (hgap : ∀ index, gap index ≠ [] ∧ AllBlank (gap index))
    (h : tokenize text file options = .ok tokens) :
    ∃ tokens', tokenize (String.ofList (layOut step gap [] tokens)) file options = .ok tokens' ∧
      tokens'.map Token.unplaced = tokens.map Token.unplaced := by
  obtain ⟨last, houtcome, rfl⟩ := tokenize_eq_ok_iff.1 h
  have hfront : InFrontOfLine [] (∅ : OpenBlocks).depth := ⟨rfl, rfl⟩
  obtain ⟨lines', hlines', hok, hsame⟩ := passAll_layOut hstep hgap
    (fun _ => indent_and_content_of_mem_codeLines) houtcome hfront 1
  have hwritten (origin : Origin) : layOut step gap []
      ((passAll options.isStrict file (codeLines text) ∅).tokens ++
        closingTokens origin options.marksEnd last) =
      layOut step gap [] (passAll options.isStrict file (codeLines text) ∅).tokens := by
    rw [layOut_append, layOut_closingTokens, List.append_nil]
  have hcodeLines : codeLines (String.ofList (layOut step gap []
      (passAll options.isStrict file (codeLines text) ∅).tokens)) = lines' := by
    rw [codeLines, String.toList_ofList]
    exact hlines'
  refine ⟨_, tokenize_eq_ok_iff.2 ⟨.even step last.depth, ?_, rfl⟩, ?_⟩
  · rw [hwritten, hcodeLines]
    exact hok
  · rw [hwritten, hcodeLines, List.map_append, List.map_append,
      map_unplaced_closingTokens (OpenBlocks.depth_even step last.depth)]
    exact congrArg (· ++ _) hsame

/-- Lexemes that stood next to one another are kept apart, and a line that closed two blocks at
    once does so again. -/
theorem tokenize_layOut_adjacent :
    ∃ tokens tokens', tokenize "if a-1:\n\tb===1abc\n\n\t   c=1.5.5 # x\nd" = .ok tokens ∧
      String.ofList (layOut 2 (fun _ => [' ']) [] tokens) =
        "if a -1 :\n  b == = 1 abc\n    c = 1.5 .5\nd\n" ∧
      tokenize "if a -1 :\n  b == = 1 abc\n    c = 1.5 .5\nd\n" = .ok tokens' ∧
      tokens'.map Token.unplaced = tokens.map Token.unplaced := by
  obtain ⟨tokens, h⟩ :
      ∃ tokens, tokenize "if a-1:\n\tb===1abc\n\n\t   c=1.5.5 # x\nd" = .ok tokens :=
    exists_tokenize_eq_ok (by decide +kernel)
  have htext : (tokenize "if a-1:\n\tb===1abc\n\n\t   c=1.5.5 # x\nd").toOption.map
      (fun tokens => String.ofList (layOut 2 (fun _ => [' ']) [] tokens)) =
        some "if a -1 :\n  b == = 1 abc\n    c = 1.5 .5\nd\n" := by
    decide +kernel
  rw [h] at htext
  have hwritten : String.ofList (layOut 2 (fun _ => [' ']) [] tokens) =
      "if a -1 :\n  b == = 1 abc\n    c = 1.5 .5\nd\n" := Option.some.inj htext
  have hgap : ∀ index : Nat, (fun _ => [' ']) index ≠ [] ∧ AllBlank ((fun _ => [' ']) index) :=
    fun _ => ⟨List.cons_ne_nil _ _, List.forall_mem_singleton.2 rfl⟩
  obtain ⟨tokens', hagain, hsame⟩ := @tokenize_layOut _ _ _ _ 2 _ (by decide) hgap h
  rw [hwritten] at hagain
  exact ⟨tokens, tokens', h, hwritten, hagain, hsame⟩

end

end Offside
