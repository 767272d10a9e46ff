import Offside.Proofs.Reading.Passage
import Offside.Proofs.Layout.Blocks

/-!
# A run line by line

The run of a lexer is said here by the line where the lexer stands: a line without content is
passed over, a line that fits no block ends the run, and a line that fits is read in two steps.
First its indentation is settled, which may hand out layout; then its content is read by a lexer
for which there is nothing more to settle. That lexer is the one that stays until the line is
behind it.
-/

namespace Offside

theorem filterMap_token?_moments (tokens : List Token) (lexer : Lexer) :
    (tokens.map fun token => (⟨.token token, lexer⟩ : Moment)).filterMap (·.emission.token?) =
      tokens := by
  rw [List.filterMap_map]
  exact List.filterMap_some

namespace Lexer

/-- The line behind the last one, where a text ends. -/
def endOrigin (lexer : Lexer) : Origin :=
  ⟨lexer.line + lexer.ahead.length, lexer.file⟩

/-- The code lines that a lexer still has to read. -/
def linesAhead (lexer : Lexer) : List CodeLine :=
  codeLinesFrom lexer.line lexer.ahead

/-- A lexer that has held the indentation of its line against the open blocks. -/
def settled (lexer : Lexer) (blocks : OpenBlocks) : Lexer :=
  { lexer with blocks }

/-- A lexer at a line with content that fits into the open blocks. -/
structure Fits (lexer : Lexer) (line : Line) (rest : List Line) (next : OpenBlocks)
    (shift : OpenBlocks.Shift) : Prop where
  ahead_eq : lexer.ahead = line :: rest
  isCode : line.IsCode
  resolve_eq : lexer.blocks.resolve lexer.options.isStrict line.indent = .ok (next, shift)

/-- Reads the content of the line where the lexer stands, and then what is behind it. -/
def runText (lexer : Lexer) (line : Line) (rest : List Line) : Run :=
  (lexer.readContent line.text line.indent.length).andThen fun lexer =>
    (lexer.advance line rest).run

/-- Induction on the lines ahead of a lexer, with one case for each way in which a reading goes on
    from where the lexer stands. -/
@[elab_as_elim]
theorem lineInduction {motive : Lexer → Prop}
    (ended : ∀ lexer, lexer.ahead = [] → motive lexer)
    (blank : ∀ lexer line rest, lexer.ahead = line :: rest → ¬ line.IsCode →
      motive (lexer.advance line rest) → motive lexer)
    (misfit : ∀ lexer line rest problem, lexer.ahead = line :: rest → line.IsCode →
      lexer.blocks.resolve lexer.options.isStrict line.indent = .error problem → motive lexer)
    (fault : ∀ lexer line rest next shift diagnostic, lexer.Fits line rest next shift →
      (lexer.codeLine line).fault? lexer.file = some diagnostic → motive lexer)
    (finished : ∀ lexer line rest next shift, lexer.Fits line rest next shift →
      (lexer.codeLine line).fault? lexer.file = none →
        motive ((lexer.settled next).advance line rest) → motive lexer)
    (lexer : Lexer) : motive lexer := by
  generalize hahead : lexer.ahead = lines
  induction lines generalizing lexer with
  | nil => exact ended lexer hahead
  | cons line rest ih =>
    by_cases hcode : line.IsCode
    · cases hresolve : lexer.blocks.resolve lexer.options.isStrict line.indent with
      | error problem => exact misfit lexer line rest problem hahead hcode hresolve
      | ok result =>
        obtain ⟨next, shift⟩ := result
        have hfits : lexer.Fits line rest next shift := ⟨hahead, hcode, hresolve⟩
        cases hfault : (lexer.codeLine line).fault? lexer.file with
        | some diagnostic => exact fault lexer line rest next shift diagnostic hfits hfault
        | none => exact finished lexer line rest next shift hfits hfault (ih _ rfl)
    · exact blank lexer line rest hahead hcode (ih _ rfl)

variable {lexer : Lexer} {line : Line} {rest : List Line} {next : OpenBlocks}
  {shift : OpenBlocks.Shift}

theorem le_line_of_mem_run {token : Token} (h : token ∈ lexer.run.tokens) :
    lexer.line ≤ token.line := by
  have hstream := stream_runLines lexer.ahead lexer
  have hmem : token ∈ (runLines lexer.ahead lexer).stream.tokens := h
  rw [hstream] at hmem
  obtain hmem | ⟨blocks, hmem⟩ := Passage.mem_tokens_close hmem
  · exact le_line_of_mem_passAll (fun line hline => (number_mem_codeLinesFrom hline).1) hmem
  · rw [line_closingTokens hmem]
    simp only
    omega

theorem endOrigin_advance (hahead : lexer.ahead = line :: rest) :
    (lexer.advance line rest).endOrigin = lexer.endOrigin := by
  rw [endOrigin, endOrigin, hahead, List.length_cons, Nat.add_comm rest.length, ← Nat.add_assoc]
  rfl

theorem linesAhead_of_blank (hahead : lexer.ahead = line :: rest) (hcode : ¬ line.IsCode) :
    lexer.linesAhead = (lexer.advance line rest).linesAhead := by
  rw [linesAhead, hahead, codeLinesFrom, if_neg hcode]
  rfl

theorem linesAhead_of_isCode (hahead : lexer.ahead = line :: rest) (hcode : line.IsCode) :
    lexer.linesAhead = lexer.codeLine line :: (lexer.advance line rest).linesAhead := by
  rw [linesAhead, hahead, codeLinesFrom, if_pos hcode]
  rfl

-- One equation for each way a lexer can stand.

theorem run_of_end (hahead : lexer.ahead = []) : lexer.run = lexer.close := by
  rw [run, hahead]
  rfl

theorem run_of_blank (hahead : lexer.ahead = line :: rest) (hcode : ¬ line.IsCode) :
    lexer.run = (lexer.advance line rest).run := by
  rw [run_of_ahead_eq_cons hahead, readLine, if_neg hcode, Run.nothing_andThen]

theorem run_of_misfit (hahead : lexer.ahead = line :: rest) (hcode : line.IsCode)
    {problem : Problem}
    (h : lexer.blocks.resolve lexer.options.isStrict line.indent = .error problem) :
    lexer.run = ⟨[], .failed (lexer.origin.report problem), lexer⟩ := by
  rw [run_of_ahead_eq_cons hahead, readLine, if_pos hcode, readIndent, h]
  rfl

theorem Fits.run_eq_runText (h : lexer.Fits line rest next shift) :
    lexer.run = (Run.emit (lexer.settled next)
      ((lexer.settled next).shiftEmissions line.indent.length shift)).andThen
        fun lexer => lexer.runText line rest := by
  rw [run_of_ahead_eq_cons h.ahead_eq, readLine, if_pos h.isCode, readIndent, h.resolve_eq,
    Run.andThen_assoc]
  rfl

/-- For a settled lexer the same line fits, and nothing is left to be opened or closed. -/
theorem Fits.settled (h : lexer.Fits line rest next shift) :
    (lexer.settled next).Fits line rest next (.closed 0) :=
  ⟨h.ahead_eq, h.isCode, OpenBlocks.resolve_again h.resolve_eq⟩

/-- A settled lexer goes on with the content of its line at once. -/
theorem Fits.run_settled (h : lexer.Fits line rest next shift) :
    (lexer.settled next).run = (lexer.settled next).runText line rest :=
  h.settled.run_eq_runText

/-- A line that fits is read by way of the settled lexer: behind the layout, the run is its run. -/
theorem Fits.run_eq (h : lexer.Fits line rest next shift) :
    lexer.run = (Run.emit (lexer.settled next)
      ((lexer.settled next).shiftEmissions line.indent.length shift)).andThen run := by
  rw [h.run_eq_runText]
  simp only [Run.andThen, Run.emit, h.run_settled]

theorem readContent_eq (lexer : Lexer) (line : Line) :
    lexer.readContent line.text line.indent.length =
      { moments := ((lexer.codeLine line).contentTokens lexer.file).map fun token =>
          ⟨.token token, lexer⟩
        ending := (((lexer.codeLine line).fault? lexer.file).map .failed).getD .finished
        lexer := lexer } := by
  rw [readContent, content_codeLine, length_codeLine lexer, Run.emit, List.map_map]
  rfl

section

variable (h : lexer.Fits line rest next shift)
include h

/-- Behind a line with a fault nothing is read. -/
theorem Fits.run_settled_of_fault {diagnostic : Diagnostic}
    (hfault : (lexer.codeLine line).fault? lexer.file = some diagnostic) :
    (lexer.settled next).run =
      ⟨((lexer.codeLine line).contentTokens lexer.file).map fun token =>
        ⟨.token token, lexer.settled next⟩, .failed diagnostic, lexer.settled next⟩ := by
  have hreport : ((lexer.settled next).codeLine line).fault? (lexer.settled next).file =
      some diagnostic := hfault
  rw [h.run_settled, runText, readContent_eq, hreport]
  rfl

/-- Behind a line without a fault the run goes on at the next line. -/
theorem Fits.run_settled_of_finished
    (hfault : (lexer.codeLine line).fault? lexer.file = none) :
    (lexer.settled next).run =
      ⟨(((lexer.codeLine line).contentTokens lexer.file).map fun token =>
          ⟨.token token, lexer.settled next⟩) ++
            ((lexer.settled next).advance line rest).run.moments,
        ((lexer.settled next).advance line rest).run.ending,
        ((lexer.settled next).advance line rest).run.lexer⟩ := by
  have hreport : ((lexer.settled next).codeLine line).fault? (lexer.settled next).file = none :=
    hfault
  rw [h.run_settled, runText, readContent_eq, hreport]
  rfl

theorem Fits.stream_settled_of_fault {diagnostic : Diagnostic}
    (hfault : (lexer.codeLine line).fault? lexer.file = some diagnostic) :
    (lexer.settled next).run.stream =
      ⟨(lexer.codeLine line).contentTokens lexer.file, .failed diagnostic⟩ := by
  rw [h.run_settled_of_fault hfault, Run.stream, Run.tokens, filterMap_token?_moments]

theorem Fits.stream_settled_of_finished
    (hfault : (lexer.codeLine line).fault? lexer.file = none) :
    (lexer.settled next).run.stream =
      ⟨(lexer.codeLine line).contentTokens lexer.file ++
          ((lexer.settled next).advance line rest).run.tokens,
        ((lexer.settled next).advance line rest).run.ending⟩ := by
  rw [h.run_settled_of_finished hfault, Run.stream, Run.tokens, List.filterMap_append,
    filterMap_token?_moments]
  rfl

/-- In front of the run of the settled lexer there is only the layout of the line. -/
theorem Fits.stream_run :
    lexer.run.stream = ⟨shift.marks lexer.origin ++ (lexer.settled next).run.stream.tokens,
      (lexer.settled next).run.stream.ending⟩ := by
  rw [h.run_eq, stream_andThen rfl, tokens_emit, filterMap_token?_shiftEmissions]
  rfl

theorem Fits.lexer_run : lexer.run.lexer = (lexer.settled next).run.lexer := by
  rw [h.run_eq]
  rfl

/-- While the layout of a line is handed out, the lexer is settled already. -/
theorem Fits.mem_moments {token : Token} {stop : Lexer}
    (hmem : ⟨.token token, stop⟩ ∈ lexer.run.moments) :
    token ∈ shift.marks lexer.origin ∧ stop = lexer.settled next ∨
      ⟨.token token, stop⟩ ∈ (lexer.settled next).run.moments := by
  rw [h.run_eq] at hmem
  obtain hmem | hmem := List.mem_append.1 hmem
  · obtain ⟨emission, hemission, hmoment⟩ := List.mem_map.1 hmem
    cases hmoment
    have hmark : token ∈ ((lexer.settled next).shiftEmissions line.indent.length shift).filterMap
        Emission.token? := List.mem_filterMap.2 ⟨_, hemission, rfl⟩
    rw [filterMap_token?_shiftEmissions] at hmark
    exact .inl ⟨hmark, rfl⟩
  · exact .inr hmem

end

end Lexer

end Offside
