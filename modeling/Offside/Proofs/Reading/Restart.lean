import Offside.Proofs.Layout.BlockStructure
import Offside.Proofs.Reading.Portions
import Offside.Proofs.Reading.Steps

/-!
# Starting again

A lexer stays at the start of a line until the line is behind it, but the blocks are those that
the line has left open. Reading from there again finds the indentation settled: the content of
the line is repeated and its layout is not. In front of the first token nothing has changed yet,
and at the end of the text no block is left to be closed.
-/

namespace Offside

/-- A token that opens or closes a block. -/
def Token.isBracket (token : Token) : Bool :=
  token.kind = .layout .indent || token.kind = .layout .dedent

/-- The tokens from the first one on that stands on a line behind its layout. -/
def fromText (number : Nat) (tokens : List Token) : List Token :=
  tokens.dropWhile fun token => !(token.line = number && !token.isBracket)

/-- A stream that takes another one up at the text of a line, without any of its layout. -/
structure TakesUp (again whole : Stream) (number : Nat) : Prop where
  tokens_eq : again.tokens = fromText number whole.tokens
  ending_eq : again.ending = whole.ending
  not_bracket : ∀ token ∈ again.tokens, token.line = number → token.isBracket = false

/-- What is left to be handed out at the end of a text when no block is open. -/
def endOnly (origin : Origin) (marksEnd : Bool) : Stream :=
  ⟨if marksEnd then [origin.mark .endOfText] else [], .finished⟩

/-- What a lexer hands out that is started again behind a portion of a reading. -/
def Reader.replay (reader : Reader) (limit : Option Nat) : Stream :=
  (reader.pull limit).2.restart.pending.stream

namespace Reader

variable {lexer : Lexer}

theorem replay_zero (lexer : Lexer) : (ofLexer lexer).replay (some 0) = lexer.run.stream := by
  have hlexer := (ofLexer lexer).lexer_pull_zero
  rw [replay, restart, hlexer]
  rfl

/-- A lexer that is started again behind a token begins where it stood after that one. -/
theorem exists_replay_eq {index : Nat} {token : Token}
    (h : lexer.run.tokens[index]? = some token) :
    ∃ stop : Lexer, ⟨.token token, stop⟩ ∈ lexer.run.moments ∧
      (ofLexer lexer).replay (some (index + 1)) = stop.run.stream :=
  ⟨_, (ofLexer lexer).exists_moment_pull h, rfl⟩

theorem replay_of_exhausts {limit : Option Nat} (h : Exhausts limit lexer.run) :
    (ofLexer lexer).replay limit = lexer.run.lexer.run.stream := by
  have hlexer := (ofLexer lexer).lexer_pull_of_exhausts h
  rw [replay, restart, hlexer]
  rfl

end Reader

theorem fromText_append_of_ne {number : Nat} {front : List Token}
    (h : ∀ token ∈ front, token.line ≠ number) (back : List Token) :
    fromText number (front ++ back) = fromText number back := by
  refine List.dropWhile_append_of_pos ?_
  intro token hmem
  rw [decide_eq_false (h token hmem), Bool.false_and, Bool.not_false]

theorem fromText_append_of_isBracket {number : Nat} {front : List Token}
    (h : ∀ token ∈ front, token.isBracket = true) (back : List Token) :
    fromText number (front ++ back) = fromText number back := by
  refine List.dropWhile_append_of_pos ?_
  intro token hmem
  rw [h token hmem, Bool.not_true, Bool.and_false, Bool.not_false]

theorem fromText_cons_of_not_isBracket {number : Nat} {token : Token} {tokens : List Token}
    (hline : token.line = number) (h : token.isBracket = false) :
    fromText number (token :: tokens) = token :: tokens := by
  refine List.dropWhile_cons_of_neg ?_
  rw [decide_eq_true hline, h]
  decide

theorem isBracket_marks {origin : Origin} {shift : OpenBlocks.Shift} {token : Token}
    (h : token ∈ shift.marks origin) : token.isBracket = true := by
  obtain rfl | rfl := eq_mark_of_mem_marks h <;> rfl

theorem isBracket_contentTokens {file : Option String} {line : CodeLine} {token : Token}
    (h : token ∈ line.contentTokens file) : token.isBracket = false := by
  have hkind := kind_ne_of_mem_contentTokens h
  simp [Token.isBracket, hkind.1, hkind.2]

/-- A stream that begins with the text of a line takes up the one with its layout in front. -/
theorem takesUp_of_layout {again : Stream} {layout content behind : List Token} {number : Nat}
    (hagain : again.tokens = content ++ behind)
    (hlayout : ∀ token ∈ layout, token.isBracket = true)
    (hcontent : ∀ token ∈ content, token.line = number ∧ token.isBracket = false)
    (hbehind : ∀ token ∈ behind, token.line ≠ number) (hnil : content = [] → behind = []) :
    TakesUp again ⟨layout ++ again.tokens, again.ending⟩ number := by
  refine ⟨?_, rfl, ?_⟩
  · rw [fromText_append_of_isBracket hlayout, hagain]
    cases content with
    | nil =>
      rw [hnil rfl]
      rfl
    | cons token tokens =>
      obtain ⟨hline, hbracket⟩ := hcontent token List.mem_cons_self
      exact (fromText_cons_of_not_isBracket hline hbracket).symm
  · intro token hmem hline
    rw [hagain] at hmem
    obtain hmem | hmem := List.mem_append.1 hmem
    · exact (hcontent token hmem).2
    · exact absurd hline (hbehind token hmem)

theorem TakesUp.append_front {again : Stream} {tokens front : List Token} {ending : Ending}
    {number : Nat} (h : TakesUp again ⟨tokens, ending⟩ number)
    (hfront : ∀ token ∈ front, token.line ≠ number) :
    TakesUp again ⟨front ++ tokens, ending⟩ number := by
  refine ⟨?_, h.ending_eq, h.not_bracket⟩
  rw [fromText_append_of_ne hfront]
  exact h.tokens_eq

theorem textOn_append_of_ne {number : Nat} {front : List Token}
    (h : ∀ token ∈ front, token.line ≠ number) (back : List Token) :
    textOn number (front ++ back) = textOn number back := by
  rw [textOn, onLine_append, onLine_eq_nil h, List.nil_append, textOn]

theorem textOn_marks_append_contentTokens (file : Option String) (line : CodeLine)
    (shift : OpenBlocks.Shift) :
    textOn line.number (shift.marks (line.origin file) ++ line.contentTokens file) =
      line.contentTokens file := by
  rw [textOn, onLine_marks_append_contentTokens, List.filter_append, filter_isOfLine_marks,
    filter_isOfLine_contentTokens, List.nil_append]

namespace Lexer

/-- What it comes to when a lexer is started again: where a token of a code line was handed out
    last, where one of the end of the text was, and where the run has ended. -/
structure Repeats (lexer : Lexer) : Prop where
  behind : ∀ (token : Token) (stop : Lexer), ⟨.token token, stop⟩ ∈ lexer.run.moments →
    (∃ line ∈ lexer.linesAhead, token.line = line.number ∧
      TakesUp stop.run.stream lexer.run.stream line.number) ∨
    token.line = lexer.endOrigin.line ∧
      stop.run.stream = endOnly lexer.endOrigin lexer.options.marksEnd
  finished : lexer.run.ending = .finished →
    lexer.run.lexer.run.stream = endOnly lexer.endOrigin lexer.options.marksEnd
  failed : ∀ diagnostic, lexer.run.ending = .failed diagnostic →
    ∃ line ∈ lexer.linesAhead, diagnostic.line = some (line.number : Int) ∧
      lexer.run.lexer.run.stream = ⟨textOn line.number lexer.run.tokens, .failed diagnostic⟩

variable {lexer : Lexer} {line : Line} {rest : List Line} {next : OpenBlocks}
  {shift : OpenBlocks.Shift}

/-- At the end of a text all blocks are closed at once, before a token is handed out for it. -/
theorem repeats_of_end (hahead : lexer.ahead = []) : lexer.Repeats := by
  have hend : lexer.endOrigin = lexer.origin := by
    rw [endOrigin, hahead]
    rfl
  have hrun := run_of_end hahead
  have hclosed : (lexer.settled ∅).ahead = [] := hahead
  have hstop : (lexer.settled ∅).run.stream =
      endOnly lexer.endOrigin lexer.options.marksEnd := by
    rw [run_of_end hclosed, stream_close, hend]
    rfl
  constructor
  · intro token stop hmem
    rw [hrun] at hmem
    have htoken : token ∈ lexer.close.stream.tokens := List.mem_filterMap.2 ⟨_, hmem, rfl⟩
    rw [stream_close] at htoken
    obtain ⟨emission, -, hmoment⟩ := List.mem_map.1 hmem
    cases hmoment
    refine .inr ⟨?_, hstop⟩
    rw [hend]
    exact line_closingTokens htoken
  · intro _
    rw [hrun]
    exact hstop
  · intro diagnostic hfailed
    rw [hrun] at hfailed
    cases hfailed

theorem repeats_of_blank (hahead : lexer.ahead = line :: rest) (hcode : ¬ line.IsCode)
    (h : (lexer.advance line rest).Repeats) : lexer.Repeats := by
  obtain ⟨hbehind, hfinished, hfailed⟩ := h
  rw [← run_of_blank hahead hcode] at hbehind hfinished hfailed
  rw [← linesAhead_of_blank hahead hcode] at hbehind hfailed
  rw [endOrigin_advance hahead] at hbehind hfinished
  exact ⟨hbehind, hfinished, hfailed⟩

/-- A line that fits no block leaves the lexer in front of it. -/
theorem repeats_of_misfit (hahead : lexer.ahead = line :: rest) (hcode : line.IsCode)
    {problem : Problem}
    (h : lexer.blocks.resolve lexer.options.isStrict line.indent = .error problem) :
    lexer.Repeats := by
  have hrun := run_of_misfit hahead hcode h
  constructor
  · intro token stop hmem
    rw [hrun] at hmem
    cases hmem
  · intro hfinished
    rw [hrun] at hfinished
    cases hfinished
  · intro diagnostic hfailed
    rw [hrun] at hfailed
    cases hfailed
    refine ⟨lexer.codeLine line, ?_, rfl, ?_⟩
    · rw [linesAhead_of_isCode hahead hcode]
      exact List.mem_cons_self
    · rw [hrun]
      simp only [hrun]
      rfl

/-- A settled lexer takes the reading of its line up at the text. -/
theorem Fits.takesUp (h : lexer.Fits line rest next shift) :
    TakesUp (lexer.settled next).run.stream lexer.run.stream lexer.line := by
  have hcontent : ∀ token ∈ (lexer.codeLine line).contentTokens lexer.file,
      token.line = lexer.line ∧ token.isBracket = false :=
    fun token hmem => ⟨line_contentTokens hmem, isBracket_contentTokens hmem⟩
  have hlayout : ∀ token ∈ shift.marks lexer.origin, token.isBracket = true :=
    fun token hmem => isBracket_marks hmem
  rw [h.stream_run]
  cases hfault : (lexer.codeLine line).fault? lexer.file with
  | some diagnostic =>
    refine takesUp_of_layout ?_ hlayout hcontent (List.forall_mem_nil _) (fun _ => rfl)
    rw [h.stream_settled_of_fault hfault, List.append_nil]
  | none =>
    have hsettled := h.stream_settled_of_finished hfault
    refine takesUp_of_layout (congrArg Stream.tokens hsettled) hlayout hcontent ?_ ?_
    · intro token hmem
      have hle : ((lexer.line + 1 : Nat) : Int) ≤ token.line := le_line_of_mem_run hmem
      omega
    · intro hnil
      exact absurd hnil (contentTokens_ne_nil hfault)

/-- A line with a fault leaves the lexer at its start, with its indentation settled. -/
theorem Fits.repeats_of_fault (h : lexer.Fits line rest next shift) {diagnostic : Diagnostic}
    (hfault : (lexer.codeLine line).fault? lexer.file = some diagnostic) : lexer.Repeats := by
  have hmemLine : lexer.codeLine line ∈ lexer.linesAhead := by
    rw [linesAhead_of_isCode h.ahead_eq h.isCode]
    exact List.mem_cons_self
  have hsettled := h.run_settled_of_fault hfault
  have hstream := h.stream_run
  rw [h.stream_settled_of_fault hfault] at hstream
  have hending : lexer.run.ending = .failed diagnostic := congrArg Stream.ending hstream
  have htokens : lexer.run.tokens =
      shift.marks lexer.origin ++ (lexer.codeLine line).contentTokens lexer.file :=
    congrArg Stream.tokens hstream
  constructor
  · intro token stop hmem
    refine .inl ⟨lexer.codeLine line, hmemLine, ?_⟩
    obtain ⟨hmark, rfl⟩ | hmem := h.mem_moments hmem
    · exact ⟨line_marks hmark, h.takesUp⟩
    · rw [hsettled] at hmem
      obtain ⟨content, hcontent, hmoment⟩ := List.mem_map.1 hmem
      cases hmoment
      exact ⟨line_contentTokens hcontent, h.takesUp⟩
  · intro hfinished
    rw [hending] at hfinished
    cases hfinished
  · intro found hfailed
    obtain rfl : diagnostic = found := Ending.failed.inj (hending.symm.trans hfailed)
    refine ⟨lexer.codeLine line, hmemLine, (CodeLine.category_and_line_of_fault? hfault).2, ?_⟩
    rw [h.lexer_run, hsettled, h.stream_settled_of_fault hfault, htokens]
    exact congrArg (Stream.mk · _)
      (textOn_marks_append_contentTokens lexer.file (lexer.codeLine line) shift).symm

/-- A line that is read to its end stays the current one until the reading goes on behind it. -/
theorem Fits.repeats_of_finished (h : lexer.Fits line rest next shift)
    (hfault : (lexer.codeLine line).fault? lexer.file = none)
    (hrest : ((lexer.settled next).advance line rest).Repeats) : lexer.Repeats := by
  have hlines : lexer.linesAhead =
      lexer.codeLine line :: ((lexer.settled next).advance line rest).linesAhead :=
    linesAhead_of_isCode h.ahead_eq h.isCode
  have hend : ((lexer.settled next).advance line rest).endOrigin = lexer.endOrigin :=
    endOrigin_advance h.ahead_eq
  have hsettled := h.run_settled_of_finished hfault
  have hstream := h.stream_run
  rw [h.stream_settled_of_finished hfault, ← List.append_assoc] at hstream
  have hending := (congrArg Stream.ending hstream).symm
  have htokens : lexer.run.tokens = _ := congrArg Stream.tokens hstream
  -- No token of this line carries the number of a later one.
  have hearlier : ∀ later ∈ ((lexer.settled next).advance line rest).linesAhead,
      ∀ token ∈ shift.marks lexer.origin ++ (lexer.codeLine line).contentTokens lexer.file,
        token.line ≠ later.number := by
    intro later hlater token hmem
    have hle : lexer.line + 1 ≤ later.number := (number_mem_codeLinesFrom hlater).1
    have hline : token.line = lexer.line := by
      obtain hmem | hmem := List.mem_append.1 hmem
      · exact line_marks hmem
      · exact line_contentTokens hmem
    omega
  obtain ⟨hbehind, hfinished, hfailed⟩ := hrest
  rw [hend] at hbehind hfinished
  constructor
  · intro token stop hmem
    rw [hlines]
    obtain ⟨hmark, rfl⟩ | hmem := h.mem_moments hmem
    · exact .inl ⟨_, List.mem_cons_self, line_marks hmark, h.takesUp⟩
    · rw [hsettled] at hmem
      obtain hmem | hmem := List.mem_append.1 hmem
      · obtain ⟨content, hcontent, hmoment⟩ := List.mem_map.1 hmem
        cases hmoment
        exact .inl ⟨_, List.mem_cons_self, line_contentTokens hcontent, h.takesUp⟩
      · obtain ⟨later, hlater, hline, htakesUp⟩ | hlast := hbehind token stop hmem
        · rw [hstream]
          exact .inl ⟨later, List.mem_cons_of_mem _ hlater, hline,
            htakesUp.append_front (hearlier later hlater)⟩
        · exact .inr hlast
  · intro hover
    rw [h.lexer_run, hsettled]
    exact hfinished (hending.trans hover)
  · intro diagnostic hover
    obtain ⟨later, hlater, hline, hagain⟩ := hfailed diagnostic (hending.trans hover)
    refine ⟨later, hlines ▸ List.mem_cons_of_mem _ hlater, hline, ?_⟩
    rw [h.lexer_run, hsettled, htokens, textOn_append_of_ne (hearlier later hlater)]
    exact hagain

/-- Whatever lines are ahead: the induction is on them, and a line that is read to its end leaves
    the statement for those behind it as it is, but for earlier tokens in front. -/
theorem repeats (lexer : Lexer) : lexer.Repeats := by
  induction lexer using lineInduction with
  | ended lexer hahead => exact repeats_of_end hahead
  | blank lexer line rest hahead hcode ih => exact repeats_of_blank hahead hcode ih
  | misfit lexer line rest problem hahead hcode hresolve =>
    exact repeats_of_misfit hahead hcode hresolve
  | fault lexer line rest next shift diagnostic hfits hfault => exact hfits.repeats_of_fault hfault
  | finished lexer line rest next shift hfits hfault ih => exact hfits.repeats_of_finished hfault ih

end Lexer

/-- What it comes to when a lexer is started again, at any point of the reading of a text. -/
structure Restarts (text : String) (file : Option String) (options : Options) : Prop where
  /-- Before a token is handed out, the reading begins anew. -/
  fresh : (Reader.ofText text file options).replay (some 0) =
    (Lexer.ofText text file options).run.stream
  /-- Behind a token of a code line, the reading is taken up at the text of the line. -/
  behindLine : ∀ (index : Nat) (token : Token) (line : CodeLine),
    (Lexer.ofText text file options).run.tokens[index]? = some token →
      line ∈ codeLines text → token.line = line.number →
        TakesUp ((Reader.ofText text file options).replay (some (index + 1)))
          (Lexer.ofText text file options).run.stream line.number
  /-- Behind a token of the end of the text, only the end is left. -/
  behindText : ∀ (index : Nat) (token : Token),
    (Lexer.ofText text file options).run.tokens[index]? = some token →
      (∀ line ∈ codeLines text, token.line ≠ line.number) →
        (Reader.ofText text file options).replay (some (index + 1)) =
          endOnly ⟨1 + (Line.split text.toList).length, file⟩ options.marksEnd
  /-- So it is when the reading is over. -/
  finished : ∀ limit, Exhausts limit (Lexer.ofText text file options).run →
    (Lexer.ofText text file options).run.ending = .finished →
      (Reader.ofText text file options).replay limit =
        endOnly ⟨1 + (Line.split text.toList).length, file⟩ options.marksEnd
  /-- When the reading has failed, the text of the line is repeated, and it fails again. -/
  failed : ∀ limit diagnostic, Exhausts limit (Lexer.ofText text file options).run →
    (Lexer.ofText text file options).run.ending = .failed diagnostic →
      ∃ line ∈ codeLines text, diagnostic.line = some (line.number : Int) ∧
        (Reader.ofText text file options).replay limit =
          ⟨textOn line.number (Lexer.ofText text file options).run.tokens, .failed diagnostic⟩

/-- A lexer that is started again repeats the content of the line where it was left and nothing
    of its layout, whatever the text and however much of it has been read. -/
theorem restart_repeats_content (text : String) (file : Option String) (options : Options) :
    Restarts text file options := by
  obtain ⟨hbehind, hfinished, hfailed⟩ := (Lexer.ofText text file options).repeats
  constructor
  · exact Reader.replay_zero _
  · intro index token line htoken hline hnumber
    obtain ⟨stop, hmoment, hreplay⟩ := Reader.exists_replay_eq htoken
    rw [Reader.ofText, hreplay]
    obtain ⟨other, -, heq, htakesUp⟩ | ⟨heq, -⟩ := hbehind token stop hmoment
    · have hsame : other.number = line.number := by omega
      rwa [hsame] at htakesUp
    · have hlast : line.number < 1 + (Line.split text.toList).length :=
        (number_mem_codeLinesFrom hline).2
      have hbehindAll : token.line = (1 + (Line.split text.toList).length : Nat) := heq
      omega
  · intro index token htoken hnone
    obtain ⟨stop, hmoment, hreplay⟩ := Reader.exists_replay_eq htoken
    rw [Reader.ofText, hreplay]
    obtain ⟨line, hline, heq, -⟩ | ⟨-, hend⟩ := hbehind token stop hmoment
    · exact absurd heq (hnone line hline)
    · exact hend
  · intro limit hlimit hending
    rw [Reader.ofText, Reader.replay_of_exhausts hlimit]
    exact hfinished hending
  · intro limit diagnostic hlimit hending
    rw [Reader.ofText, Reader.replay_of_exhausts hlimit]
    exact hfailed diagnostic hending

theorem restart_repeats_content_closing_block :
    (Lexer.ofText "a\n  b\nc d").run.tokens[5]? = some ((⟨3, none⟩ : Origin).mark .dedent) ∧
      TakesUp ((Reader.ofText "a\n  b\nc d").replay (some 6))
        (Lexer.ofText "a\n  b\nc d").run.stream 3 := by
  have htoken : (Lexer.ofText "a\n  b\nc d").run.tokens[5]? =
      some ((⟨3, none⟩ : Origin).mark .dedent) := by
    decide +kernel
  have hline : (⟨3, [], ['c', ' ', 'd']⟩ : CodeLine) ∈ codeLines "a\n  b\nc d" := by
    decide +kernel
  exact ⟨htoken, (restart_repeats_content _ none {}).behindLine 5 _ _ htoken hline rfl⟩

-- Left behind the failure on the second line, whose block is open by then.
example : ((Reader.ofText "a\n  b ?").pull none).2.restart.pending.tokens.map (·.value) =
    ["b"] := by
  decide +kernel

end Offside
