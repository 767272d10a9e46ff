import Offside.Proofs.Reading.CodeLine
import Offside.Run

/-!
# Passages

What a reading hands out depends on the code lines alone: on the numbers of lines, their
indentations and their contents, and on how many lines there are in all. A passage is what
reading some code lines comes to, with the blocks that are open behind them. It is the part
of `Lexer.run` that the theory of layout speaks about, and `stream_ofText` says that nothing
else decides what is handed out.

## Main definitions

- `Offside.Passage` — the tokens of some lines, and the blocks behind them or the failure
- `Offside.passAll` — the passage over code lines
- `Offside.Stream` — all tokens of a reading and how it ends
- `Offside.Token.unplaced` — what a token says, wherever it stands

## Main statements

- `Offside.passAll_append` — a passage over lines one after the other
- `Offside.passAll_invariant` — what each line preserves holds behind a passage
- `Offside.stream_ofText` — the stream of a text is its passage, closed at the end
- `Offside.exists_line_of_outcome_error` — a failure is reported at one of the lines read
-/

namespace Offside

/-- What reading some lines comes to: their tokens, and then the blocks open behind them or
    the diagnostic that kept the reading from going on. -/
structure Passage where
  tokens : List Token
  outcome : Except Diagnostic OpenBlocks

/-- All that a reading hands out: its tokens, and how it ends. -/
structure Stream where
  tokens : List Token
  ending : Ending
deriving DecidableEq, Repr

/-- What a token says, without its place: its kind, its text and its value. -/
def Token.unplaced (token : Token) : Kind × String × Literal :=
  (token.kind, token.value, token.literal)

def Run.stream (run : Run) : Stream :=
  ⟨run.tokens, run.ending⟩

namespace Passage

def andThen (passage : Passage) (next : OpenBlocks → Passage) : Passage :=
  match passage.outcome with
  | .error _ => passage
  | .ok blocks => ⟨passage.tokens ++ (next blocks).tokens, (next blocks).outcome⟩

/-- The stream that a passage over all lines makes, given what is handed out at the end. -/
def close (passage : Passage) (closing : OpenBlocks → List Token) : Stream :=
  match passage.outcome with
  | .error diagnostic => ⟨passage.tokens, .failed diagnostic⟩
  | .ok blocks => ⟨passage.tokens ++ closing blocks, .finished⟩

theorem andThen_of_error {passage : Passage} {diagnostic : Diagnostic}
    (h : passage.outcome = .error diagnostic) (next : OpenBlocks → Passage) :
    passage.andThen next = passage := by
  rw [andThen, h]

theorem andThen_of_ok {passage : Passage} {blocks : OpenBlocks}
    (h : passage.outcome = .ok blocks) (next : OpenBlocks → Passage) :
    passage.andThen next =
      ⟨passage.tokens ++ (next blocks).tokens, (next blocks).outcome⟩ := by
  rw [andThen, h]

theorem andThen_assoc (passage : Passage) (next last : OpenBlocks → Passage) :
    (passage.andThen next).andThen last =
      passage.andThen fun blocks => (next blocks).andThen last := by
  obtain ⟨tokens, outcome⟩ := passage
  cases outcome with
  | error diagnostic => rfl
  | ok blocks => cases h : (next blocks).outcome <;> simp [andThen, h]

theorem close_of_error {passage : Passage} {diagnostic : Diagnostic}
    (h : passage.outcome = .error diagnostic) (closing : OpenBlocks → List Token) :
    passage.close closing = ⟨passage.tokens, .failed diagnostic⟩ := by
  rw [close, h]

theorem close_of_ok {passage : Passage} {blocks : OpenBlocks}
    (h : passage.outcome = .ok blocks) (closing : OpenBlocks → List Token) :
    passage.close closing = ⟨passage.tokens ++ closing blocks, .finished⟩ := by
  rw [close, h]

theorem close_andThen_of_ok {passage : Passage} {blocks : OpenBlocks}
    (h : passage.outcome = .ok blocks) (next : OpenBlocks → Passage)
    (closing : OpenBlocks → List Token) :
    (passage.andThen next).close closing =
      ⟨passage.tokens ++ ((next blocks).close closing).tokens,
        ((next blocks).close closing).ending⟩ := by
  rw [andThen_of_ok h]
  cases hnext : (next blocks).outcome <;> simp [close, hnext]

theorem mem_tokens_close {passage : Passage} {closing : OpenBlocks → List Token} {token : Token}
    (h : token ∈ (passage.close closing).tokens) :
    token ∈ passage.tokens ∨ ∃ blocks, token ∈ closing blocks := by
  cases houtcome : passage.outcome with
  | error diagnostic =>
    rw [close_of_error houtcome] at h
    exact .inl h
  | ok blocks =>
    rw [close_of_ok houtcome] at h
    exact (List.mem_append.1 h).imp id fun hmem => ⟨blocks, hmem⟩

end Passage

/-- The tokens for what a line does to the open blocks. -/
def OpenBlocks.Shift.marks (origin : Origin) : Shift → List Token
  | .opened => [origin.mark .indent]
  | .closed count => List.replicate count (origin.mark .dedent)

/-- What is handed out at the end of a text, on the line behind the last one. -/
def closingTokens (origin : Origin) (marksEnd : Bool) (blocks : OpenBlocks) : List Token :=
  List.replicate blocks.depth (origin.mark .dedent) ++
    if marksEnd then [origin.mark .endOfText] else []

section

variable (strict : Bool) (file : Option String)

/-- The passage over one code line: a line that fits no block hands out nothing, and any
    other its layout and then its content. -/
def CodeLine.pass (line : CodeLine) (blocks : OpenBlocks) : Passage :=
  match blocks.resolve strict line.indent with
  | .error problem => ⟨[], .error ((line.origin file).report problem)⟩
  | .ok (next, shift) =>
    { tokens := shift.marks (line.origin file) ++ line.contentTokens file
      outcome := ((line.fault? file).map .error).getD (.ok next) }

def passAll : List CodeLine → OpenBlocks → Passage
  | [], blocks => ⟨[], .ok blocks⟩
  | line :: rest, blocks => (line.pass strict file blocks).andThen (passAll rest)

end

variable {strict : Bool} {file : Option String}

theorem CodeLine.pass_of_error (line : CodeLine) {blocks : OpenBlocks} {problem : Problem}
    (h : blocks.resolve strict line.indent = .error problem) :
    line.pass strict file blocks = ⟨[], .error ((line.origin file).report problem)⟩ := by
  rw [pass, h]

theorem CodeLine.pass_of_ok (line : CodeLine) {blocks next : OpenBlocks}
    {shift : OpenBlocks.Shift} (h : blocks.resolve strict line.indent = .ok (next, shift)) :
    line.pass strict file blocks =
      ⟨shift.marks (line.origin file) ++ line.contentTokens file,
        ((line.fault? file).map .error).getD (.ok next)⟩ := by
  rw [pass, h]

theorem passAll_append (front back : List CodeLine) (blocks : OpenBlocks) :
    passAll strict file (front ++ back) blocks =
      (passAll strict file front blocks).andThen (passAll strict file back) := by
  induction front generalizing blocks with
  | nil => rfl
  | cons line rest ih =>
    simp only [List.cons_append, passAll, Passage.andThen_assoc]
    congr 1
    funext next
    exact ih next

section

variable {line : CodeLine} {rest : List CodeLine} {blocks next last : OpenBlocks}
  {shift : OpenBlocks.Shift}

-- One equation for each way a line can end.

theorem passAll_cons_of_error {problem : Problem}
    (h : blocks.resolve strict line.indent = .error problem) :
    passAll strict file (line :: rest) blocks =
      ⟨[], .error ((line.origin file).report problem)⟩ := by
  rw [passAll, line.pass_of_error h]
  rfl

theorem passAll_cons_of_fault {diagnostic : Diagnostic}
    (h : blocks.resolve strict line.indent = .ok (next, shift))
    (hfault : line.fault? file = some diagnostic) :
    passAll strict file (line :: rest) blocks =
      ⟨shift.marks (line.origin file) ++ line.contentTokens file, .error diagnostic⟩ := by
  rw [passAll, line.pass_of_ok h, hfault]
  rfl

theorem passAll_cons_of_ok (h : blocks.resolve strict line.indent = .ok (next, shift))
    (hfault : line.fault? file = none) :
    passAll strict file (line :: rest) blocks =
      ⟨shift.marks (line.origin file) ++ line.contentTokens file ++
        (passAll strict file rest next).tokens, (passAll strict file rest next).outcome⟩ := by
  rw [passAll, line.pass_of_ok h, hfault]
  rfl

theorem outcome_passAll_cons_eq_ok
    (h : (passAll strict file (line :: rest) blocks).outcome = .ok last) :
    ∃ next shift, blocks.resolve strict line.indent = .ok (next, shift) ∧
      line.fault? file = none ∧ (passAll strict file rest next).outcome = .ok last ∧
      (passAll strict file (line :: rest) blocks).tokens =
        shift.marks (line.origin file) ++ line.contentTokens file ++
          (passAll strict file rest next).tokens := by
  cases hresolve : blocks.resolve strict line.indent with
  | error problem => rw [passAll_cons_of_error hresolve] at h; cases h
  | ok result =>
    obtain ⟨next, shift⟩ := result
    cases hfault : line.fault? file with
    | some diagnostic => rw [passAll_cons_of_fault hresolve hfault] at h; cases h
    | none =>
      rw [passAll_cons_of_ok hresolve hfault] at h ⊢
      exact ⟨next, shift, rfl, rfl, h, rfl⟩

end

theorem outcome_passAll_append_eq_ok {front back : List CodeLine} {blocks last : OpenBlocks}
    (h : (passAll strict file (front ++ back) blocks).outcome = .ok last) :
    ∃ middle, (passAll strict file front blocks).outcome = .ok middle ∧
      (passAll strict file back middle).outcome = .ok last ∧
      (passAll strict file (front ++ back) blocks).tokens =
        (passAll strict file front blocks).tokens ++ (passAll strict file back middle).tokens := by
  rw [passAll_append] at h ⊢
  cases hfront : (passAll strict file front blocks).outcome with
  | error diagnostic => rw [Passage.andThen_of_error hfront, hfront] at h; cases h
  | ok middle =>
    rw [Passage.andThen_of_ok hfront] at h ⊢
    exact ⟨middle, rfl, h, rfl⟩

/-- What one line preserves holds behind a passage that goes well. It may speak of the lines read
    so far, of which the history came before the passage. -/
theorem passAll_invariant {keeps : List CodeLine → OpenBlocks → Prop}
    {history lines : List CodeLine} {blocks last : OpenBlocks}
    (hline : ∀ history blocks line next shift, keeps history blocks →
      blocks.resolve strict line.indent = .ok (next, shift) → keeps (history ++ [line]) next)
    (hstart : keeps history blocks)
    (hok : (passAll strict file lines blocks).outcome = .ok last) :
    keeps (history ++ lines) last := by
  induction lines generalizing history blocks with
  | nil =>
    cases hok
    rwa [List.append_nil]
  | cons line rest ih =>
    obtain ⟨next, shift, hresolve, -, hrest, -⟩ := outcome_passAll_cons_eq_ok hok
    have hall := ih (hline history blocks line next shift hstart hresolve) hrest
    rwa [List.append_assoc, List.singleton_append] at hall

def Lexer.codeLine (lexer : Lexer) (line : Line) : CodeLine :=
  ⟨lexer.line, line.indent, line.body⟩

def Run.passage (run : Run) : Passage where
  tokens := run.tokens
  outcome :=
    match run.ending with
    | .finished => .ok run.lexer.blocks
    | .failed diagnostic => .error diagnostic

@[simp] theorem filterMap_token?_note (note : Note) (emissions : List Emission) :
    (Emission.note note :: emissions).filterMap Emission.token? =
      emissions.filterMap Emission.token? := rfl

@[simp] theorem filterMap_token?_token (token : Token) (emissions : List Emission) :
    (Emission.token token :: emissions).filterMap Emission.token? =
      token :: emissions.filterMap Emission.token? := rfl

@[simp] theorem filterMap_token?_map_token (tokens : List Token) :
    (tokens.map Emission.token).filterMap Emission.token? = tokens := by
  rw [List.filterMap_map]
  exact List.filterMap_some

@[simp] theorem filterMap_token?_replicate (count : Nat) (token : Token) :
    (List.replicate count (Emission.token token)).filterMap Emission.token? =
      List.replicate count token := by
  rw [← List.map_replicate, filterMap_token?_map_token]

theorem tokens_emit (lexer : Lexer) (emissions : List Emission) :
    (Run.emit lexer emissions).tokens = emissions.filterMap Emission.token? := by
  rw [Run.tokens, Run.emit, List.filterMap_map]
  rfl

theorem filterMap_token?_shiftEmissions (lexer : Lexer) (width : Nat)
    (shift : OpenBlocks.Shift) :
    (lexer.shiftEmissions width shift).filterMap Emission.token? = shift.marks lexer.origin := by
  cases shift with
  | opened => rfl
  | closed count =>
    cases count with
    | zero => rfl
    | succ count => exact filterMap_token?_replicate (count + 1) _

theorem stream_andThen {run : Run} (h : run.ending = .finished) (next : Lexer → Run) :
    (run.andThen next).stream =
      ⟨run.tokens ++ (next run.lexer).stream.tokens, (next run.lexer).stream.ending⟩ := by
  rw [Run.andThen, h]
  exact congrArg (Stream.mk · _) List.filterMap_append

theorem content_codeLine (lexer : Lexer) (line : Line) :
    Content.ofLine line.text line.indent.length = (lexer.codeLine line).content := by
  have hdrop : line.text.drop line.indent.length = line.body := by
    rw [← line.indent_append_body, List.drop_left]
  rw [Content.ofLine, hdrop]
  rfl

theorem length_codeLine (lexer : Lexer) (line : Line) :
    line.text.length = (lexer.codeLine line).width + (lexer.codeLine line).body.length := by
  rw [← line.indent_append_body, List.length_append]
  rfl

theorem tokens_readContent (lexer : Lexer) (text : List Char) (start : Nat) :
    (lexer.readContent text start).tokens =
      (Content.ofLine text start).tokens lexer.origin text.length := by
  have hemit := tokens_emit lexer
    (((Content.ofLine text start).tokens lexer.origin text.length).map .token)
  rw [filterMap_token?_map_token] at hemit
  exact hemit

theorem tokens_readContent_line (lexer : Lexer) (line : Line) :
    (lexer.readContent line.text line.indent.length).tokens =
      (lexer.codeLine line).contentTokens lexer.file := by
  rw [tokens_readContent, content_codeLine lexer, length_codeLine lexer]
  rfl

/-- A lexer reads a line with content as the passage over its code line. -/
theorem passage_readLine (lexer : Lexer) {line : Line} (hcode : line.IsCode) :
    (lexer.readLine line).passage =
      (lexer.codeLine line).pass lexer.options.isStrict lexer.file lexer.blocks := by
  rw [Lexer.readLine, if_pos hcode, Lexer.readIndent]
  cases hresolve : lexer.blocks.resolve lexer.options.isStrict line.indent with
  | error problem =>
    rw [(lexer.codeLine line).pass_of_error hresolve]
    rfl
  | ok result =>
    obtain ⟨next, shift⟩ := result
    have htokens {first : Run} (h : first.ending = .finished) (second : Lexer → Run) :
        (first.andThen second).tokens = first.tokens ++ (second first.lexer).tokens :=
      congrArg Stream.tokens (stream_andThen h second)
    rw [(lexer.codeLine line).pass_of_ok hresolve, Run.passage, htokens rfl,
      tokens_emit, filterMap_token?_shiftEmissions]
    congr 1
    · exact congrArg _ (tokens_readContent_line { lexer with blocks := next } line)
    · simp only [Run.andThen, Run.emit, Lexer.readContent, content_codeLine lexer line]
      rw [show (lexer.codeLine line).content.problem? (Lexer.origin { lexer with blocks := next }) =
        (lexer.codeLine line).fault? lexer.file from rfl]
      cases (lexer.codeLine line).fault? lexer.file <;> rfl

theorem lexer_readLine (lexer : Lexer) (line : Line) :
    (lexer.readLine line).lexer =
      { lexer with blocks := (lexer.readLine line).lexer.blocks } := by
  rw [Lexer.readLine]
  split
  · rw [Lexer.readIndent]
    split <;> rfl
  · rfl

theorem stream_close (lexer : Lexer) :
    lexer.close.stream =
      ⟨closingTokens lexer.origin lexer.options.marksEnd lexer.blocks, .finished⟩ := by
  have hnote : (if lexer.blocks.depth = 0 then [] else
      [Emission.note (.closing lexer.blocks.depth)]).filterMap Emission.token? = [] := by
    split <;> rfl
  have hend : (if lexer.options.marksEnd then [Emission.token (lexer.origin.mark .endOfText)]
      else []).filterMap Emission.token? =
      if lexer.options.marksEnd then [lexer.origin.mark .endOfText] else [] := by
    split <;> rfl
  have htokens : lexer.close.tokens =
      closingTokens lexer.origin lexer.options.marksEnd lexer.blocks := by
    refine (tokens_emit _ _).trans ?_
    simp only [List.filterMap_append, filterMap_token?_replicate]
    rw [hnote]
    refine (congrArg (· ++ _) (congrArg (_ ++ ·) hend)).trans ?_
    simp [closingTokens, Lexer.origin]
  exact congrArg (Stream.mk · _) htokens

/-- The stream of the lines from some lexer on is the passage over the code lines among them,
    closed on the line behind the last. -/
theorem stream_runLines (lines : List Line) (lexer : Lexer) :
    (Lexer.runLines lines lexer).stream =
      (passAll lexer.options.isStrict lexer.file (codeLinesFrom lexer.line lines)
        lexer.blocks).close
        (closingTokens ⟨lexer.line + lines.length, lexer.file⟩ lexer.options.marksEnd) := by
  induction lines generalizing lexer with
  | nil => exact stream_close lexer
  | cons line rest ih =>
    have hlast : lexer.line + (line :: rest).length = lexer.line + 1 + rest.length := by
      rw [List.length_cons]
      omega
    simp only [Lexer.runLines, codeLinesFrom, hlast]
    by_cases hcode : line.IsCode
    · have hpassage := passage_readLine lexer hcode
      rw [if_pos hcode, passAll]
      rw [show (⟨lexer.line, line.indent, line.body⟩ : CodeLine) = lexer.codeLine line from rfl,
        ← hpassage]
      cases hending : (lexer.readLine line).ending with
      | failed diagnostic =>
        have houtcome : (lexer.readLine line).passage.outcome = .error diagnostic := by
          rw [Run.passage, hending]
        rw [Passage.andThen_of_error houtcome, Passage.close_of_error houtcome, Run.andThen,
          hending]
        exact congrArg (Stream.mk _) hending
      | finished =>
        have houtcome : (lexer.readLine line).passage.outcome =
            .ok (lexer.readLine line).lexer.blocks := by
          rw [Run.passage, hending]
        rw [Passage.close_andThen_of_ok houtcome, stream_andThen hending, ih,
          lexer_readLine lexer line]
        rfl
    · rw [if_neg hcode, Lexer.readLine, if_neg hcode, Run.nothing_andThen]
      exact ih (lexer.advance line rest)

/-- The stream of a text is the passage over its code lines, closed on the line behind its
    last one. -/
theorem stream_ofText (text : String) (file : Option String) (options : Options) :
    (Lexer.ofText text file options).run.stream =
      (passAll options.isStrict file (codeLines text) ∅).close
        (closingTokens ⟨1 + (Line.split text.toList).length, file⟩ options.marksEnd) :=
  stream_runLines _ _

theorem tokenize_eq_ok_iff_stream {text : String} {file : Option String} {options : Options}
    {tokens : List Token} :
    tokenize text file options = .ok tokens ↔
      (Lexer.ofText text file options).run.stream = ⟨tokens, .finished⟩ := by
  rw [tokenize, Run.stream, Stream.mk.injEq]
  cases (Lexer.ofText text file options).run.ending with
  | finished => simp
  | failed diagnostic => simp

theorem tokenize_eq_error_iff_ending {text : String} {file : Option String} {options : Options}
    {diagnostic : Diagnostic} :
    tokenize text file options = .error diagnostic ↔
      (Lexer.ofText text file options).run.stream.ending = .failed diagnostic := by
  rw [tokenize, Run.stream]
  cases (Lexer.ofText text file options).run.ending with
  | finished => simp
  | failed found => simp

/-- A text is read without failure just when the passage over its code lines goes well. -/
theorem tokenize_eq_ok_iff {text : String} {file : Option String} {options : Options}
    {tokens : List Token} :
    tokenize text file options = .ok tokens ↔
      ∃ last, (passAll options.isStrict file (codeLines text) ∅).outcome = .ok last ∧
        tokens = (passAll options.isStrict file (codeLines text) ∅).tokens ++
          closingTokens ⟨1 + (Line.split text.toList).length, file⟩ options.marksEnd last := by
  rw [tokenize_eq_ok_iff_stream, stream_ofText]
  cases houtcome : (passAll options.isStrict file (codeLines text) ∅).outcome with
  | error diagnostic =>
    rw [Passage.close_of_error houtcome]
    simp
  | ok last =>
    rw [Passage.close_of_ok houtcome]
    simp [eq_comm]

theorem tokenize_eq_error_iff {text : String} {file : Option String} {options : Options}
    {diagnostic : Diagnostic} :
    tokenize text file options = .error diagnostic ↔
      (passAll options.isStrict file (codeLines text) ∅).outcome = .error diagnostic := by
  rw [tokenize_eq_error_iff_ending, stream_ofText]
  cases houtcome : (passAll options.isStrict file (codeLines text) ∅).outcome with
  | error found =>
    rw [Passage.close_of_error houtcome]
    simp
  | ok last =>
    rw [Passage.close_of_ok houtcome]
    simp

theorem exists_tokenize_eq_ok {text : String} {file : Option String} {options : Options}
    (h : (tokenize text file options).toOption.isSome = true) :
    ∃ tokens, tokenize text file options = .ok tokens := by
  cases hresult : tokenize text file options with
  | error diagnostic => rw [hresult] at h; cases h
  | ok tokens => exact ⟨tokens, rfl⟩

/-- Around any of its code lines, text that is read without failure hands out the tokens of the
    lines in front, the layout and the content of the line, and the tokens of what follows. -/
theorem exists_split_of_tokenize {text : String} {options : Options} {tokens : List Token}
    {before after : List CodeLine} {line : CodeLine}
    (h : tokenize text file options = .ok tokens)
    (hlines : codeLines text = before ++ line :: after) :
    ∃ blocks next last shift,
      (passAll options.isStrict file before ∅).outcome = .ok blocks ∧
      blocks.resolve options.isStrict line.indent = .ok (next, shift) ∧
      (passAll options.isStrict file after next).outcome = .ok last ∧
      tokens = (passAll options.isStrict file before ∅).tokens ++
        (shift.marks (line.origin file) ++ line.contentTokens file ++
          ((passAll options.isStrict file after next).tokens ++
            closingTokens ⟨1 + (Line.split text.toList).length, file⟩ options.marksEnd last)) := by
  obtain ⟨last, houtcome, rfl⟩ := tokenize_eq_ok_iff.1 h
  rw [hlines] at houtcome ⊢
  obtain ⟨blocks, hbefore, hrest, htokens⟩ := outcome_passAll_append_eq_ok houtcome
  obtain ⟨next, shift, hresolve, -, hafter, hline⟩ := outcome_passAll_cons_eq_ok hrest
  refine ⟨blocks, next, last, shift, hbefore, hresolve, hafter, ?_⟩
  rw [htokens, hline]
  simp only [List.append_assoc]

/-- What is handed out for the layout of a line marks the line. -/
theorem eq_mark_of_mem_marks {origin : Origin} {shift : OpenBlocks.Shift} {token : Token}
    (h : token ∈ shift.marks origin) :
    token = origin.mark .indent ∨ token = origin.mark .dedent := by
  cases shift with
  | opened => exact .inl (List.mem_singleton.1 h)
  | closed count => exact .inr (List.eq_of_mem_replicate h)

theorem line_marks {origin : Origin} {shift : OpenBlocks.Shift} {token : Token}
    (h : token ∈ shift.marks origin) : token.line = origin.line := by
  obtain rfl | rfl := eq_mark_of_mem_marks h <;> rfl

/-- What is handed out at the end of a text marks the line behind the last one. -/
theorem eq_mark_of_mem_closingTokens {origin : Origin} {marksEnd : Bool} {blocks : OpenBlocks}
    {token : Token} (h : token ∈ closingTokens origin marksEnd blocks) :
    token = origin.mark .dedent ∨ token = origin.mark .endOfText := by
  rw [closingTokens, List.mem_append] at h
  obtain h | h := h
  · exact .inl (List.eq_of_mem_replicate h)
  · split at h
    · exact .inr (List.mem_singleton.1 h)
    · cases h

theorem line_closingTokens {origin : Origin} {marksEnd : Bool} {blocks : OpenBlocks}
    {token : Token} (h : token ∈ closingTokens origin marksEnd blocks) :
    token.line = origin.line := by
  obtain rfl | rfl := eq_mark_of_mem_closingTokens h <;> rfl

theorem kind_closingTokens {origin : Origin} {marksEnd : Bool} {blocks : OpenBlocks}
    {token : Token} (h : token ∈ closingTokens origin marksEnd blocks) :
    token.kind = .layout .dedent ∨ token.kind = .layout .endOfText := by
  obtain rfl | rfl := eq_mark_of_mem_closingTokens h
  · exact .inl rfl
  · exact .inr rfl

/-- A token of the passage over one line is from its layout or from its content. -/
theorem mem_tokens_pass {line : CodeLine} {blocks : OpenBlocks} {token : Token}
    (h : token ∈ (line.pass strict file blocks).tokens) :
    (∃ shift : OpenBlocks.Shift, token ∈ shift.marks (line.origin file)) ∨
      token ∈ line.contentTokens file := by
  cases hresolve : blocks.resolve strict line.indent with
  | error problem =>
    rw [line.pass_of_error hresolve] at h
    cases h
  | ok result =>
    rw [line.pass_of_ok hresolve, List.mem_append] at h
    exact h.imp_left fun hmark => ⟨result.2, hmark⟩

/-- A token of a passage is from the passage over one of the lines. -/
theorem exists_pass_of_mem_passAll {lines : List CodeLine} {blocks : OpenBlocks} {token : Token}
    (h : token ∈ (passAll strict file lines blocks).tokens) :
    ∃ line ∈ lines, ∃ before, token ∈ (line.pass strict file before).tokens := by
  induction lines generalizing blocks with
  | nil => cases h
  | cons line rest ih =>
    rw [passAll, Passage.andThen] at h
    split at h
    · exact ⟨line, List.mem_cons_self, blocks, h⟩
    · rcases List.mem_append.1 h with hline | hrest
      · exact ⟨line, List.mem_cons_self, blocks, hline⟩
      · obtain ⟨found, hfound, hpass⟩ := ih hrest
        exact ⟨found, List.mem_cons_of_mem _ hfound, hpass⟩

theorem line_outcome_pass {line : CodeLine} {blocks : OpenBlocks} {diagnostic : Diagnostic}
    (h : (line.pass strict file blocks).outcome = .error diagnostic) :
    diagnostic.line = some (line.number : Int) := by
  cases hresolve : blocks.resolve strict line.indent with
  | error problem =>
    rw [line.pass_of_error hresolve] at h
    cases h
    rfl
  | ok result =>
    rw [line.pass_of_ok hresolve] at h
    cases hfault : line.fault? file with
    | none => simp [hfault] at h
    | some found =>
      simp only [hfault, Option.map_some, Option.getD_some, Except.error.injEq] at h
      rw [← h]
      exact (CodeLine.category_and_line_of_fault? hfault).2

theorem exists_line_of_mem_passAll {lines : List CodeLine} {blocks : OpenBlocks}
    {token : Token} (h : token ∈ (passAll strict file lines blocks).tokens) :
    ∃ line ∈ lines, token.line = line.number := by
  obtain ⟨line, hmem, before, hpass⟩ := exists_pass_of_mem_passAll h
  refine ⟨line, hmem, ?_⟩
  obtain ⟨shift, hmark⟩ | hcontent := mem_tokens_pass hpass
  · exact line_marks hmark
  · exact line_contentTokens hcontent

theorem line_lt_of_mem_passAll {lines : List CodeLine} {blocks : OpenBlocks} {number : Nat}
    {token : Token} (hlines : ∀ line ∈ lines, line.number < number)
    (h : token ∈ (passAll strict file lines blocks).tokens) : token.line < number := by
  obtain ⟨line, hmem, heq⟩ := exists_line_of_mem_passAll h
  have := hlines line hmem
  omega

theorem le_line_of_mem_passAll {lines : List CodeLine} {blocks : OpenBlocks} {number : Nat}
    {token : Token} (hlines : ∀ line ∈ lines, number ≤ line.number)
    (h : token ∈ (passAll strict file lines blocks).tokens) : number ≤ token.line := by
  obtain ⟨line, hmem, heq⟩ := exists_line_of_mem_passAll h
  have := hlines line hmem
  omega

/-- A failure is reported at one of the lines read. -/
theorem exists_line_of_outcome_error {lines : List CodeLine} {blocks : OpenBlocks}
    {diagnostic : Diagnostic}
    (h : (passAll strict file lines blocks).outcome = .error diagnostic) :
    ∃ line ∈ lines, diagnostic.line = some (line.number : Int) := by
  induction lines generalizing blocks with
  | nil => cases h
  | cons line rest ih =>
    rw [passAll] at h
    cases hline : (line.pass strict file blocks).outcome with
    | error found =>
      rw [Passage.andThen_of_error hline] at h
      exact ⟨line, List.mem_cons_self, line_outcome_pass h⟩
    | ok next =>
      rw [Passage.andThen_of_ok hline] at h
      obtain ⟨found, hfound, hnumber⟩ := ih h
      exact ⟨found, List.mem_cons_of_mem _ hfound, hnumber⟩

end Offside
