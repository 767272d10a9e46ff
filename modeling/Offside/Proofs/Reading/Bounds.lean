import Mathlib.Algebra.GroupWithZero.Nat
import Offside.Proofs.Reading.Cursor
import Offside.Proofs.Reading.SingleLine

/-!
# Every reading ends

Two loops read a text: one goes from line to line, the other through the content of one line. Each
of them ends, as every pass leaves less to be read. So does the stream of tokens. There are at most
two tokens for each character of the text: those that stand for no text are paid for by the
characters of the line, and each block that is opened has paid for being closed as well.

## Main definitions

- `Offside.EndsWithin` — a loop that makes at most so many passes and then is at rest
- `Offside.Content.Passes`, `Offside.Lexer.Passes` — one pass of each of the two loops
- `Offside.Reader.portions` — what is handed out by pulling again and again
- `Offside.EndsInTime` — the bounds of the reading of a text

## Main statements

- `Offside.Content.endsWithin_passes`, `Offside.Lexer.endsWithin_passes` — both loops end
- `Offside.length_tokens_passAll_le` — what a passage hands out is paid for by its lines
- `Offside.Reader.exhaust_portions` — pulling again and again reaches the end
- `Offside.endsInTime` — every reading of every text is bounded
-/

namespace Offside

/-- A loop makes at most `bound` passes from a state, and there is a way for it to come to rest. -/
structure EndsWithin {α : Type} (passes : α → α → Prop) (atRest : α → Prop) (bound : Nat)
    (start : α) : Prop where
  length_le : ∀ states, (start :: states).IsChain passes → states.length ≤ bound
  exists_last : ∃ states last, (start :: states).IsChain passes ∧
    (start :: states).getLast? = some last ∧ atRest last

/-- One pass through the content of a line: a blank is passed over, or a lexeme is taken. -/
inductive Content.Passes : List Char → List Char → Prop where
  | blank {c : Char} {rest : List Char} (hblank : isBlank c = true) : Passes (c :: rest) rest
  | lexeme {c : Char} {rest : List Char} {lexeme : Lexeme} (hblank : isBlank c = false)
      (hcomment : c ≠ commentMark) (hread : Lexeme.read? (c :: rest) = some lexeme) :
      Passes (c :: rest) ((c :: rest).drop lexeme.text.length)

/-- Where the reading of a content comes to rest, and the character that starts no lexeme if it
    does so at one. -/
inductive Content.AtRest : Option Char → List Char → Prop where
  | ended : AtRest none []
  | comment (rest : List Char) : AtRest none (commentMark :: rest)
  | fault {c : Char} {rest : List Char} (hblank : isBlank c = false) (hcomment : c ≠ commentMark)
      (hread : Lexeme.read? (c :: rest) = none) : AtRest (some c) (c :: rest)

/-- One pass from line to line: the line where the lexer stands is read without failure. -/
inductive Lexer.Passes : Lexer → Lexer → Prop where
  | mk {lexer : Lexer} {line : Line} {rest : List Line} (hahead : lexer.ahead = line :: rest)
      (hending : (lexer.readLine line).ending = .finished) :
      Passes lexer ((lexer.readLine line).lexer.advance line rest)

/-- Where the reading of the lines comes to rest: behind the last one, or at one that fails. -/
inductive Lexer.AtRest : Ending → Lexer → Prop where
  | finished {lexer : Lexer} (hahead : lexer.ahead = []) : AtRest .finished lexer
  | failed {lexer : Lexer} {line : Line} {rest : List Line} {diagnostic : Diagnostic}
      (hahead : lexer.ahead = line :: rest)
      (hending : (lexer.readLine line).ending = .failed diagnostic) :
      AtRest (.failed diagnostic) lexer

/-- What is handed out when a reader is asked for one portion after the other. -/
def Reader.portions (reader : Reader) : List (Option Nat) → List Portion
  | [] => []
  | limit :: limits => (reader.pull limit).1 :: (reader.pull limit).2.portions limits

/-- Portions that make up some tokens: each but the last hands out some of them and is not the end,
    and the last one is the end. Whatever is handed out behind it does not matter. -/
def Exhaust (tokens : List Token) (stop : Stop) (portions : List Portion) : Prop :=
  ∃ front last back, portions = front ++ last :: back ∧
    (∀ portion ∈ front, portion.stop = .limit ∧ portion.tokens ≠ []) ∧ last.stop = stop ∧
    (front ++ [last]).flatMap Portion.tokens = tokens

/-- The bounds of the reading of a text, whether it fails or not. -/
structure EndsInTime (text : String) (file : Option String) (options : Options) : Prop where
  /-- The reading goes from line to line, with no more passes than characters, and comes to rest
      at the end of the text or at a line that fails. -/
  lines : EndsWithin Lexer.Passes (Lexer.AtRest (Lexer.ofText text file options).run.ending)
    text.length (Lexer.ofText text file options)
  /-- On the way the cursor moves ahead, until it has come to the end of the text. -/
  cursor : ∀ lexers, (Lexer.ofText text file options :: lexers).IsChain Lexer.Passes →
    (Lexer.ofText text file options :: lexers).IsChain (·.position < ·.position) ∧
      ∀ lexer ∈ Lexer.ofText text file options :: lexers,
        lexer.ahead = [] ↔ text.length ≤ lexer.position
  /-- The reading of any content goes on with no more passes than characters, and comes to rest
      where there is no more content or at a fault. -/
  content : ∀ column chars, EndsWithin Content.Passes
    (Content.AtRest ((Content.read column chars).fault.map Fault.character)) chars.length chars
  value_ne : ∀ token ∈ (Lexer.ofText text file options).run.tokens,
    token.isStructural = false → token.value ≠ ""
  /-- There are at most two tokens for each character, and one for the end of the text. -/
  length_le : (Lexer.ofText text file options).run.tokens.length ≤
    2 * text.length + if options.marksEnd then 1 else 0
  /-- So the end is reached by pulling often enough, with any limits but zero. -/
  exhaust : ∀ limits, some 0 ∉ limits →
    2 * text.length + (if options.marksEnd then 1 else 0) < limits.length →
    Exhaust (Lexer.ofText text file options).run.tokens
      (Lexer.ofText text file options).run.ending.stop
      ((Reader.ofText text file options).portions limits)

-- ════════════════════════════════════════════════════════════════════════
-- Loops
-- ════════════════════════════════════════════════════════════════════════

namespace EndsWithin

variable {α : Type} {passes : α → α → Prop} {atRest : α → Prop} {bound : Nat} {start next : α}

theorem mono {greater : Nat} (h : EndsWithin passes atRest bound start) (hle : bound ≤ greater) :
    EndsWithin passes atRest greater start :=
  ⟨fun states hchain => (h.length_le states hchain).trans hle, h.exists_last⟩

theorem of_atRest (hnone : ∀ next, ¬ passes start next) (hrest : atRest start) (bound : Nat) :
    EndsWithin passes atRest bound start where
  length_le states hchain := by
    cases states with
    | nil => exact Nat.zero_le _
    | cons next states => exact absurd (List.isChain_cons_cons.1 hchain).1 (hnone next)
  exists_last := ⟨[], start, List.IsChain.singleton _, rfl, hrest⟩

/-- One more pass in front, if there is only one way to make it. -/
theorem cons (hpass : passes start next) (hunique : ∀ other, passes start other → other = next)
    (h : EndsWithin passes atRest bound next) : EndsWithin passes atRest (bound + 1) start where
  length_le states hchain := by
    cases states with
    | nil => exact Nat.zero_le _
    | cons other states =>
      obtain ⟨hother, hchain⟩ := List.isChain_cons_cons.1 hchain
      obtain rfl := hunique other hother
      exact Nat.succ_le_succ (h.length_le states hchain)
  exists_last := by
    obtain ⟨states, last, hchain, hlast, hrest⟩ := h.exists_last
    refine ⟨next :: states, last, List.isChain_cons_cons.2 ⟨hpass, hchain⟩, ?_, hrest⟩
    rwa [List.getLast?_cons_cons]

end EndsWithin

/-- The content of a line is read with no more passes than there are characters. -/
theorem Content.endsWithin_passes (column : Nat) (text : List Char) :
    EndsWithin Passes (AtRest ((read column text).fault.map Fault.character)) text.length text := by
  fun_induction read column text with
  | case1 =>
    refine .of_atRest ?_ .ended _
    rintro other ⟨⟩
  | case2 column c rest hblank ih =>
    refine ih.cons (.blank hblank) ?_
    rintro other (_ | ⟨hnot, -, -⟩)
    · rfl
    · rw [hblank] at hnot
      cases hnot
  | case3 column rest hblank =>
    refine .of_atRest ?_ (.comment rest) _
    rintro other (hmark | ⟨-, hnot, -⟩)
    · exact hblank hmark
    · exact hnot rfl
  | case4 column c rest hblank hcomment hnone =>
    refine .of_atRest ?_ (.fault (Bool.eq_false_iff.2 hblank) hcomment hnone) _
    rintro other (hmark | ⟨-, -, hsome⟩)
    · exact hblank hmark
    · rw [hnone] at hsome
      cases hsome
  | case5 column c rest hblank hcomment lexeme hread ih =>
    refine (ih.cons (.lexeme (Bool.eq_false_iff.2 hblank) hcomment hread) ?_).mono
      (Nat.succ_le_of_lt (Lexeme.length_drop_lt_of_read? hread))
    rintro other (hmark | ⟨-, -, hother⟩)
    · exact absurd hmark hblank
    · rw [hread] at hother
      cases hother
      rfl

namespace Lexer

variable {lexer : Lexer} {line : Line} {rest : List Line}

theorem Passes.unique {next other : Lexer} (h : lexer.Passes next) (h' : lexer.Passes other) :
    other = next := by
  obtain ⟨hahead, -⟩ := h
  obtain ⟨hahead', -⟩ := h'
  rw [hahead] at hahead'
  cases hahead'
  rfl

theorem ending_run_of_failed (hahead : lexer.ahead = line :: rest) {diagnostic : Diagnostic}
    (h : (lexer.readLine line).ending = .failed diagnostic) :
    lexer.run.ending = .failed diagnostic := by
  rw [run_of_ahead_eq_cons hahead, Run.andThen, h]
  exact h

theorem ending_run_of_finished (hahead : lexer.ahead = line :: rest)
    (h : (lexer.readLine line).ending = .finished) :
    lexer.run.ending = ((lexer.readLine line).lexer.advance line rest).run.ending := by
  rw [run_of_ahead_eq_cons hahead, Run.andThen, h]

/-- The lines are read with one pass for each of them, up to one that fails. -/
theorem endsWithin_passes (lexer : Lexer) :
    EndsWithin Passes (AtRest lexer.run.ending) lexer.ahead.length lexer := by
  generalize hahead : lexer.ahead = lines
  induction lines generalizing lexer with
  | nil =>
    rw [run_of_end hahead]
    refine .of_atRest ?_ (.finished hahead) _
    rintro next ⟨hsome, -⟩
    rw [hahead] at hsome
    cases hsome
  | cons line rest ih =>
    cases hending : (lexer.readLine line).ending with
    | failed diagnostic =>
      rw [ending_run_of_failed hahead hending]
      refine .of_atRest ?_ (.failed hahead hending) _
      rintro next ⟨hsome, hfinished⟩
      rw [hahead] at hsome
      cases hsome
      rw [hending] at hfinished
      cases hfinished
    | finished =>
      have hpass := Passes.mk hahead hending
      rw [ending_run_of_finished hahead hending]
      exact (ih _ rfl).cons hpass fun other => hpass.unique

-- ════════════════════════════════════════════════════════════════════════
-- The cursor
-- ════════════════════════════════════════════════════════════════════════

theorem StandsIn.ahead_eq_nil_iff {text : List Char} (h : lexer.StandsIn text) :
    lexer.ahead = [] ↔ text.length ≤ lexer.position := by
  cases h with
  | @lineStart front back htext hfront hahead hposition hline =>
    rw [hahead, hposition, htext, List.length_append]
    cases back with
    | nil => simp [Line.split, splitAtNewlines]
    | cons c rest => simp [Line.split, splitAtNewlines_ne_nil]
  | pastEnd htext hahead hposition hline =>
    rw [hposition]
    exact iff_of_true hahead (Nat.le_succ _)

theorem StandsIn.extent_pos {text : List Char} (h : lexer.StandsIn text)
    (hahead : lexer.ahead = line :: rest) : 0 < line.extent := by
  cases h with
  | @lineStart front back htext hfront hback hposition hline =>
    rw [hahead] at hback
    obtain ⟨piece, behind, -, -, rfl, -⟩ | ⟨-, -, rfl, -⟩ := split_eq_cons hback.symm
    · exact Nat.succ_pos _
    · exact Nat.succ_pos _
  | pastEnd htext hnone hposition hline =>
    rw [hahead] at hnone
    cases hnone

theorem StandsIn.passes {text : List Char} (h : lexer.StandsIn text) {next : Lexer}
    (hpass : lexer.Passes next) : lexer.position < next.position ∧ next.StandsIn text := by
  obtain ⟨hahead, hending⟩ := hpass
  rw [lexer_readLine]
  exact ⟨Nat.lt_add_of_pos_right (h.extent_pos hahead), (h.settled _).advance hahead⟩

/-- From pass to pass the cursor moves ahead, and always stands at a place of the text. -/
theorem StandsIn.isChain {text : List Char} {lexers : List Lexer} (h : lexer.StandsIn text)
    (hchain : (lexer :: lexers).IsChain Passes) :
    (lexer :: lexers).IsChain (·.position < ·.position) ∧
      ∀ stop ∈ lexer :: lexers, stop.StandsIn text := by
  induction lexers generalizing lexer with
  | nil => exact ⟨List.IsChain.singleton _, List.forall_mem_singleton.2 h⟩
  | cons next lexers ih =>
    obtain ⟨hpass, hchain⟩ := List.isChain_cons_cons.1 hchain
    obtain ⟨hmoves, hnext⟩ := h.passes hpass
    obtain ⟨hpositions, hstands⟩ := ih hnext hchain
    exact ⟨List.isChain_cons_cons.2 ⟨hmoves, hpositions⟩, List.forall_mem_cons.2 ⟨h, hstands⟩⟩

end Lexer

-- ════════════════════════════════════════════════════════════════════════
-- The number of tokens
-- ════════════════════════════════════════════════════════════════════════

theorem length_splitAtNewlines_le (text : List Char) :
    (splitAtNewlines text).length ≤ text.length := by
  induction text with
  | nil => exact Nat.le_refl _
  | cons c rest ih =>
    rw [splitAtNewlines]
    split
    · exact Nat.succ_le_succ ih
    · split
      · exact Nat.succ_le_succ (Nat.zero_le _)
      · next piece pieces hpieces =>
        rw [hpieces] at ih
        exact ih.trans (Nat.le_succ _)

/-- The pieces of a text are no longer than the text. -/
theorem sum_length_splitAtNewlines_le (text : List Char) :
    ((splitAtNewlines text).map List.length).sum ≤ text.length := by
  induction text with
  | nil => exact Nat.le_refl _
  | cons c rest ih =>
    rw [splitAtNewlines]
    split
    · rw [List.map_cons, List.sum_cons, List.length_nil, List.length_cons]
      omega
    · split
      · simp
      · next piece pieces hpieces =>
        rw [hpieces, List.map_cons, List.sum_cons] at ih
        rw [List.map_cons, List.sum_cons, List.length_cons, List.length_cons]
        omega

/-- The number of characters of a code line. -/
def CodeLine.length (line : CodeLine) : Nat :=
  line.width + line.body.length

theorem sum_length_codeLinesFrom_le (first : Nat) (pieces : List (List Char)) :
    ((codeLinesFrom first (pieces.map Line.ofPiece)).map CodeLine.length).sum ≤
      (pieces.map List.length).sum := by
  induction pieces generalizing first with
  | nil => exact Nat.le_refl _
  | cons piece pieces ih =>
    have hrest := ih (first + 1)
    have hpiece : (Line.ofPiece piece).indent.length + (Line.ofPiece piece).body.length ≤
        piece.length := by
      rw [← List.length_append, Line.indent_append_body]
      exact (text_ofPiece_isPrefix piece).length_le
    rw [List.map_cons, List.map_cons, List.sum_cons, codeLinesFrom]
    split
    · rw [List.map_cons, List.sum_cons]
      exact Nat.add_le_add hpiece hrest
    · omega

theorem sum_length_codeLines_le (text : String) :
    ((codeLines text).map CodeLine.length).sum ≤ text.length := by
  rw [← String.length_toList]
  exact (sum_length_codeLinesFrom_le 1 _).trans (sum_length_splitAtNewlines_le _)

theorem length_lexemes_le (column : Nat) (text : List Char) :
    (Content.read column text).lexemes.length ≤ text.length := by
  fun_induction Content.read column text with
  | case1 => exact Nat.le_refl _
  | case2 column c rest hblank ih => exact ih.trans (Nat.le_succ _)
  | case3 => exact Nat.zero_le _
  | case4 => exact Nat.zero_le _
  | case5 column c rest hblank hcomment lexeme hread ih =>
    exact Nat.succ_le_of_lt (ih.trans_lt (Lexeme.length_drop_lt_of_read? hread))

/-- The tokens of a content are at most twice as many as its characters: one for each of them, and
    one for the end of the line. -/
theorem length_contentTokens_le (file : Option String) {line : CodeLine} (h : line.body ≠ []) :
    (line.contentTokens file).length ≤ 2 * line.body.length := by
  have hpos := List.length_pos_of_ne_nil h
  have hlexemes : line.content.lexemes.length ≤ line.body.length := length_lexemes_le _ _
  cases hfault : line.content.fault with
  | some fault =>
    rw [contentTokens_of_fault hfault, List.length_map]
    omega
  | none =>
    rw [contentTokens_of_finished hfault, List.length_append, List.length_map,
      List.length_singleton]
    omega

/-- The layout of a line that fits is paid for by its indentation, and by the blocks that it
    closes: a line that opens a block is indented, and has two tokens to spare for each blank. -/
theorem length_marks_add_depth_le {strict : Bool} {indent : List Char} {blocks next : OpenBlocks}
    {shift : OpenBlocks.Shift} (origin : Origin)
    (h : blocks.resolve strict indent = .ok (next, shift)) :
    (shift.marks origin).length + next.depth ≤ blocks.depth + 2 * indent.length := by
  obtain ⟨inner, hsplit, -, -, -, -, rfl⟩ | ⟨hwidth, -, rfl, rfl⟩ := OpenBlocks.resolve_eq_ok h
  · have hdepth := OpenBlocks.depth_eq_of_split hsplit
    rw [OpenBlocks.Shift.marks, List.length_replicate]
    omega
  · rw [OpenBlocks.Shift.marks, List.length_singleton, OpenBlocks.depth, OpenBlocks.depth,
      List.length_cons]
    omega

/-- How many blocks a passage leaves open, which are still to be closed. -/
def Passage.depth (passage : Passage) : Nat :=
  match passage.outcome with
  | .error _ => 0
  | .ok blocks => blocks.depth

/-- What a passage hands out is paid for by its lines and by the blocks that are open in front of
    it, and enough is left for those that are open behind it. -/
theorem length_tokens_passAll_le {strict : Bool} {file : Option String} {lines : List CodeLine}
    (hsome : ∀ line ∈ lines, line.body ≠ []) (blocks : OpenBlocks) :
    (passAll strict file lines blocks).tokens.length + (passAll strict file lines blocks).depth ≤
      blocks.depth + 2 * (lines.map CodeLine.length).sum := by
  induction lines generalizing blocks with
  | nil => exact Nat.le_of_eq (Nat.zero_add _)
  | cons line rest ih =>
    obtain ⟨hline, hrest⟩ := List.forall_mem_cons.1 hsome
    have hcontent := length_contentTokens_le file hline
    rw [List.map_cons, List.sum_cons, CodeLine.length]
    cases hresolve : blocks.resolve strict line.indent with
    | error problem =>
      rw [passAll_cons_of_error hresolve]
      exact Nat.zero_le _
    | ok result =>
      obtain ⟨next, shift⟩ := result
      have hmarks := length_marks_add_depth_le (line.origin file) hresolve
      rw [← CodeLine.width] at hmarks
      cases hfault : line.fault? file with
      | some diagnostic =>
        rw [passAll_cons_of_fault hresolve hfault, List.length_append]
        show _ + 0 ≤ _
        omega
      | none =>
        have hnext := ih hrest next
        rw [passAll_cons_of_ok hresolve hfault, List.length_append, List.length_append]
        show _ + (passAll strict file rest next).depth ≤ _
        omega

theorem length_closingTokens (origin : Origin) (marksEnd : Bool) (blocks : OpenBlocks) :
    (closingTokens origin marksEnd blocks).length =
      blocks.depth + if marksEnd then 1 else 0 := by
  cases marksEnd <;> simp [closingTokens]

theorem body_ne_nil_of_mem_codeLines {text : String} {line : CodeLine}
    (h : line ∈ codeLines text) : line.body ≠ [] := by
  intro hnil
  obtain ⟨hindent, hcontent⟩ := indent_and_content_of_mem_codeLines h
  rw [hnil, List.append_nil] at hcontent
  exact hcontent ⟨line.indent, [], (List.append_nil _).symm, hindent, .inl rfl⟩

theorem length_tokens_ofText_le (text : String) (file : Option String) (options : Options) :
    (Lexer.ofText text file options).run.tokens.length ≤
      2 * text.length + if options.marksEnd then 1 else 0 := by
  have hlines := sum_length_codeLines_le text
  have hpass := @length_tokens_passAll_le options.isStrict file (codeLines text)
    (fun _ => body_ne_nil_of_mem_codeLines) ∅
  have hdepth : (∅ : OpenBlocks).depth = 0 := rfl
  have hstream : (Lexer.ofText text file options).run.tokens = _ :=
    congrArg Stream.tokens (stream_ofText text file options)
  rw [hstream]
  cases houtcome : (passAll options.isStrict file (codeLines text) ∅).outcome with
  | error diagnostic =>
    rw [Passage.close_of_error houtcome]
    show (passAll options.isStrict file (codeLines text) ∅).tokens.length ≤ _
    omega
  | ok last =>
    have hlast : (passAll options.isStrict file (codeLines text) ∅).depth = last.depth := by
      rw [Passage.depth, houtcome]
    rw [Passage.close_of_ok houtcome, List.length_append, length_closingTokens]
    omega

theorem value_ne_of_mem_run {text : String} {file : Option String} {options : Options}
    {token : Token} (h : token ∈ (Lexer.ofText text file options).run.tokens)
    (hkind : token.isStructural = false) : token.value ≠ "" := by
  cases made_of_mem_run h with
  | mark origin mark column => cases hkind
  | lexeme placed origin hformed =>
    intro hempty
    have hnil := congrArg String.toList hempty
    rw [Placed.token, String.toList_ofList] at hnil
    exact hformed.solid.some_char hnil

-- ════════════════════════════════════════════════════════════════════════
-- Pulling again and again
-- ════════════════════════════════════════════════════════════════════════

namespace Reader

/-- Pulling again and again, with any limits but zero, reaches the end: with each portion there is
    less still to come. -/
theorem exhaust_portions (reader : Reader) {limits : List (Option Nat)} (hzero : some 0 ∉ limits)
    (hlength : reader.pending.tokens.length < limits.length) :
    Exhaust reader.pending.tokens reader.pending.ending.stop (reader.portions limits) := by
  induction limits generalizing reader with
  | nil => cases hlength
  | cons limit limits ih =>
    by_cases hlimit : Exhausts limit reader.pending
    · refine ⟨[], _, _, rfl, List.forall_mem_nil _, ?_, ?_⟩
      · rw [reader.pull_of_exhausts hlimit]
        rfl
      · rw [reader.pull_of_exhausts hlimit]
        exact List.append_nil _
    · obtain ⟨count, rfl, hle, hpull⟩ := reader.exists_pull_of_not_exhausts hlimit
      rw [List.mem_cons, not_or] at hzero
      have hpos : 0 < count := Nat.pos_of_ne_zero fun hcount => hzero.1 (hcount ▸ rfl)
      have hrest := reader.tokens_pending_pullSome count
      have hfewer : (reader.pullSome count).2.pending.tokens.length < limits.length := by
        rw [hrest, List.length_drop]
        rw [List.length_cons] at hlength
        omega
      obtain ⟨front, last, back, hportions, hfront, hstop, htokens⟩ := ih _ hzero.2 hfewer
      rw [portions, hpull, hportions]
      refine ⟨(reader.pullSome count).1 :: front, last, back, rfl, ?_, hstop, ?_⟩
      · refine List.forall_mem_cons.2 ⟨⟨rfl, ?_⟩, hfront⟩
        rw [reader.tokens_pullSome]
        refine List.ne_nil_of_length_pos ?_
        rw [List.length_take]
        omega
      · rw [List.cons_append, List.flatMap_cons, htokens, reader.tokens_pullSome, hrest,
          List.take_append_drop]

end Reader

/-- Every reading of every text ends, with a bounded number of tokens. -/
theorem endsInTime (text : String) (file : Option String) (options : Options) :
    EndsInTime text file options where
  lines := by
    refine (Lexer.ofText text file options).endsWithin_passes.mono ?_
    rw [← String.length_toList]
    exact (List.length_map _).trans_le (length_splitAtNewlines_le _)
  cursor := by
    intro lexers hchain
    obtain ⟨hpositions, hstands⟩ := (Lexer.standsIn_ofText text file options).isChain hchain
    refine ⟨hpositions, ?_⟩
    intro lexer hmem
    rw [← String.length_toList]
    exact (hstands lexer hmem).ahead_eq_nil_iff
  content := Content.endsWithin_passes
  value_ne _ := value_ne_of_mem_run
  length_le := length_tokens_ofText_le text file options
  exhaust := by
    intro limits hzero hlength
    have hle := length_tokens_ofText_le text file options
    exact (Reader.ofText text file options).exhaust_portions hzero (hle.trans_lt hlength)

/-- A name behind a blank comes to as many tokens as there can be for two characters. -/
theorem endsInTime_name_behind_blank :
    EndsInTime " a" none { emitEof := .flag true } ∧
      (Lexer.ofText " a" none { emitEof := .flag true }).run.tokens.length =
        2 * " a".length + 1 :=
  ⟨endsInTime _ _ _, by decide +kernel⟩

end Offside
