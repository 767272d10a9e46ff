import Offside.Proofs.Reading.Account
import Offside.Proofs.Reading.Portions
import Offside.Proofs.Reading.Steps

/-!
# What is noted and what is handed out

The notes that are taken on the way tell the same as the tokens do. A line that opens a block, or
closes some, is noted as soon as the first token for it is handed out, and no other line is; the
end of the text is noted in the same way, if there are blocks to be closed. The last note is taken
when nothing more is to come, and only if the reading has not failed.
-/

namespace Offside

/-- The messages of the notes among the first moments, up to the token with the given number. -/
def messagesUpTo (count : Nat) (moments : List Moment) : List String :=
  ((upToToken count moments).filterMap (·.emission.note?)).map Note.message

-- ════════════════════════════════════════════════════════════════════════
-- The first moments
-- ════════════════════════════════════════════════════════════════════════

theorem messagesUpTo_append (count : Nat) (front back : List Moment) :
    messagesUpTo count (front ++ back) = messagesUpTo count front ++
      messagesUpTo (count - (front.filterMap (·.emission.token?)).length) back := by
  rw [messagesUpTo, upToToken_append, List.filterMap_append, List.map_append]
  rfl

/-- Tokens alone leave nothing to be noted. -/
theorem messagesUpTo_tokens (count : Nat) (tokens : List Token) (lexer : Lexer) :
    messagesUpTo count (tokens.map fun token => ⟨.token token, lexer⟩) = [] := by
  rw [messagesUpTo, List.map_eq_nil_iff, List.filterMap_eq_nil_iff]
  intro moment hmem
  obtain ⟨token, -, rfl⟩ := List.mem_map.1 ((upToToken_isPrefix count _).subset hmem)
  rfl

/-- A note is taken just before the token behind it. -/
theorem messagesUpTo_note (count : Nat) (note : Note) (tokens : List Token) (lexer : Lexer) :
    messagesUpTo count (⟨.note note, lexer⟩ :: tokens.map fun token => ⟨.token token, lexer⟩) =
      if count = 0 then [] else [note.message] := by
  cases count with
  | zero => rw [messagesUpTo, upToToken_zero]; rfl
  | succ count =>
    rw [if_neg (Nat.succ_ne_zero count)]
    exact congrArg (note.message :: ·) (messagesUpTo_tokens (count + 1) tokens lexer)

theorem map_replicate_token (count : Nat) (token : Token) (lexer : Lexer) :
    (List.replicate count (Emission.token token)).map (Moment.mk · lexer) =
      (List.replicate count token).map fun token => ⟨.token token, lexer⟩ := by
  rw [List.map_replicate, List.map_replicate]

/-- What a line does to the open blocks is noted just before the first token for it. -/
theorem messagesUpTo_shiftEmissions (count : Nat) (lexer : Lexer) (width : Nat)
    (shift : OpenBlocks.Shift) :
    messagesUpTo count ((lexer.shiftEmissions width shift).map (⟨·, lexer⟩)) =
      if count = 0 then [] else shift.messages lexer.line width lexer.blocks.depth := by
  cases shift with
  | opened => exact messagesUpTo_note count _ [lexer.origin.mark .indent] lexer
  | closed closed =>
    cases closed with
    | zero =>
      rw [Lexer.shiftEmissions, List.map_nil, messagesUpTo, upToToken_nil]
      split <;> rfl
    | succ closed =>
      rw [Lexer.shiftEmissions, List.map_cons, map_replicate_token, messagesUpTo_note]
      · rfl
      · exact nofun

namespace Lexer

/-- What is noted when a reading is over, if more tokens are asked for than there are. -/
def lastMessages (lexer : Lexer) (count : Nat) : List String :=
  if lexer.run.ending = .finished ∧ lexer.run.tokens.length < count then
    [(Note.finished (lexer.endOrigin.line - 1) (namedFile? lexer.file)).message]
  else []

/-- What is noted while a lexer reads on, up to some number of tokens, when other tokens have been
    handed out before. -/
def account (lexer : Lexer) (past : List Token) (count : Nat) : List String :=
  accountOf lexer.linesAhead lexer.endOrigin.line (past ++ lexer.run.tokens)
    (lexer.run.tokens.take count) (lexer.lastMessages count)

/-- The moments of the end of a text, up to the last note. -/
def closingMoments (lexer : Lexer) (count : Nat) (tokens : List Token) : List Moment :=
  (if count = 0 then [] else [⟨.note (.closing count), lexer⟩]) ++
    tokens.map fun token => ⟨.token token, lexer⟩

theorem filterMap_token?_closingMoments (lexer : Lexer) (count : Nat) (tokens : List Token) :
    (lexer.closingMoments count tokens).filterMap (·.emission.token?) = tokens := by
  have hnote : (if count = 0 then [] else [(⟨.note (.closing count), lexer⟩ : Moment)]).filterMap
      (·.emission.token?) = [] := by
    split <;> rfl
  rw [closingMoments, List.filterMap_append, hnote, filterMap_token?_moments, List.nil_append]

theorem messagesUpTo_closingMoments (count : Nat) (lexer : Lexer) (depth : Nat)
    (tokens : List Token) :
    messagesUpTo count (lexer.closingMoments depth tokens) =
      if depth = 0 ∨ count = 0 then [] else [(Note.closing depth).message] := by
  rw [closingMoments]
  by_cases hdepth : depth = 0
  · rw [if_pos hdepth, if_pos (.inl hdepth), List.nil_append, messagesUpTo_tokens]
  · rw [if_neg hdepth, List.singleton_append, messagesUpTo_note]
    simp only [hdepth, false_or]

theorem moments_close (lexer : Lexer) :
    lexer.close.moments = (lexer.settled ∅).closingMoments lexer.blocks.depth
        (closingTokens lexer.origin lexer.options.marksEnd lexer.blocks) ++
      [⟨.note (.finished (lexer.line - 1) (namedFile? lexer.file)), lexer.settled ∅⟩] := by
  cases hdepth : lexer.blocks.depth <;> cases hmarks : lexer.options.marksEnd <;>
    simp [close, OpenBlocks.closeAll, Run.emit, closingMoments, closingTokens, settled, origin,
      hdepth, hmarks]

/-- At the end of a text the account is right. -/
theorem account_of_end {lexer : Lexer} (hahead : lexer.ahead = []) {past : List Token}
    (hpast : ∀ token ∈ past, token.line < lexer.line) (count : Nat) :
    messagesUpTo count lexer.run.moments = lexer.account past count := by
  have hstream := stream_close lexer
  have htokens : lexer.close.tokens =
      closingTokens lexer.origin lexer.options.marksEnd lexer.blocks :=
    congrArg Stream.tokens hstream
  have hending : lexer.close.ending = .finished := congrArg Stream.ending hstream
  have hlines : lexer.linesAhead = [] := by
    rw [linesAhead, hahead]
    rfl
  have hend : lexer.endOrigin = lexer.origin := by
    rw [endOrigin, hahead]
    rfl
  have hclosing := @closingMessages_take lexer.origin past
    (fun token hmem => Int.ne_of_lt (hpast token hmem)) lexer.options.marksEnd lexer.blocks count
  rw [account, lastMessages, run_of_end hahead, hlines, accountOf, List.flatMap_nil,
    List.nil_append, hend, htokens, hending, hclosing, moments_close, messagesUpTo_append,
    messagesUpTo_closingMoments, filterMap_token?_closingMoments]
  refine congrArg (_ ++ ·) ((messagesUpTo_note _ _ [] _).trans ?_)
  simp only [true_and, Nat.sub_eq_zero_iff_le, ← Nat.not_lt, ite_not]
  rfl

variable {lexer : Lexer} {line : Line} {rest : List Line} {next : OpenBlocks}
  {shift : OpenBlocks.Shift}

/-- The moments of a line that fits, its layout and its content. -/
def lineMoments (lexer : Lexer) (line : Line) (shift : OpenBlocks.Shift) : List Moment :=
  (lexer.shiftEmissions line.indent.length shift).map (⟨·, lexer⟩) ++
    ((lexer.codeLine line).contentTokens lexer.file).map fun token => ⟨.token token, lexer⟩

theorem filterMap_token?_lineMoments (lexer : Lexer) (line : Line) (shift : OpenBlocks.Shift) :
    (lexer.lineMoments line shift).filterMap (·.emission.token?) =
      (lexer.codeLine line).tokens lexer.file shift := by
  have hemit := tokens_emit lexer (lexer.shiftEmissions line.indent.length shift)
  rw [filterMap_token?_shiftEmissions] at hemit
  rw [lineMoments, List.filterMap_append, filterMap_token?_moments]
  exact congrArg (· ++ _) hemit

theorem messagesUpTo_lineMoments (count : Nat) (lexer : Lexer) (line : Line)
    (shift : OpenBlocks.Shift) :
    messagesUpTo count (lexer.lineMoments line shift) =
      if count = 0 then [] else
        shift.messages lexer.line line.indent.length lexer.blocks.depth := by
  rw [lineMoments, messagesUpTo_append, messagesUpTo_tokens, List.append_nil,
    messagesUpTo_shiftEmissions]

theorem Fits.moments_run (h : lexer.Fits line rest next shift) :
    lexer.run.moments =
      ((lexer.settled next).shiftEmissions line.indent.length shift).map
        (⟨·, lexer.settled next⟩) ++ (lexer.settled next).run.moments := by
  rw [h.run_eq]
  rfl

theorem Fits.moments_of_fault (h : lexer.Fits line rest next shift) {diagnostic : Diagnostic}
    (hfault : (lexer.codeLine line).fault? lexer.file = some diagnostic) :
    lexer.run.moments = (lexer.settled next).lineMoments line shift := by
  rw [h.moments_run, h.run_settled_of_fault hfault]
  rfl

theorem Fits.moments_of_finished (h : lexer.Fits line rest next shift)
    (hfault : (lexer.codeLine line).fault? lexer.file = none) :
    lexer.run.moments = (lexer.settled next).lineMoments line shift ++
      ((lexer.settled next).advance line rest).run.moments := by
  rw [h.moments_run, h.run_settled_of_finished hfault, ← List.append_assoc]
  rfl

theorem Fits.tokens_of_fault (h : lexer.Fits line rest next shift) {diagnostic : Diagnostic}
    (hfault : (lexer.codeLine line).fault? lexer.file = some diagnostic) :
    lexer.run.tokens = (lexer.codeLine line).tokens lexer.file shift := by
  rw [Run.tokens, h.moments_of_fault hfault]
  exact filterMap_token?_lineMoments (lexer.settled next) line shift

theorem Fits.tokens_of_finished (h : lexer.Fits line rest next shift)
    (hfault : (lexer.codeLine line).fault? lexer.file = none) :
    lexer.run.tokens = (lexer.codeLine line).tokens lexer.file shift ++
      ((lexer.settled next).advance line rest).run.tokens := by
  rw [Run.tokens, h.moments_of_finished hfault, List.filterMap_append]
  exact congrArg (· ++ _) (filterMap_token?_lineMoments (lexer.settled next) line shift)

/-- The depth that is noted for a line is the one that the tokens in front of it come to. -/
theorem Fits.messages_eq (h : lexer.Fits line rest next shift) {past : List Token}
    (hdepth : lexer.blocks.depth + dedents past = indents past) (number width : Nat) :
    shift.messages number width next.depth =
      shift.messages number width (indents past + 1 - dedents past) := by
  obtain ⟨inner, -, -, -, -, -, rfl⟩ | ⟨-, -, rfl, rfl⟩ := OpenBlocks.resolve_eq_ok h.resolve_eq
  · cases inner.length <;> rfl
  · have hnext : (OpenBlocks.mk (line.indent :: lexer.blocks.indents)).depth =
        indents past + 1 - dedents past := by
      rw [← hdepth, OpenBlocks.depth, List.length_cons, OpenBlocks.depth]
      omega
    rw [hnext]

theorem lt_number_of_mem_linesAhead {line : Line} {rest : List Line} {other : CodeLine}
    (h : other ∈ (lexer.advance line rest).linesAhead) : lexer.line < other.number :=
  (number_mem_codeLinesFrom h).1

theorem lt_endOrigin (hahead : lexer.ahead = line :: rest) : lexer.line < lexer.endOrigin.line := by
  rw [endOrigin, hahead, List.length_cons]
  exact Nat.lt_add_of_pos_right (Nat.succ_pos _)

/-- The account of a line with content, and then of what is behind it. -/
theorem Fits.account_eq (h : lexer.Fits line rest next shift) {past later : List Token}
    (htokens : lexer.run.tokens = (lexer.codeLine line).tokens lexer.file shift ++ later)
    (hpast : ∀ token ∈ past, token.line < lexer.line)
    (hlater : ∀ token ∈ later, lexer.line < token.line)
    (hdepth : lexer.blocks.depth + dedents past = indents past) (count : Nat) :
    lexer.account past count =
      (if count = 0 then [] else shift.messages lexer.line line.indent.length next.depth) ++
      accountOf (lexer.advance line rest).linesAhead lexer.endOrigin.line
        (past ++ (lexer.codeLine line).tokens lexer.file shift ++ later)
        (later.take (count - ((lexer.codeLine line).tokens lexer.file shift).length))
        (lexer.lastMessages count) := by
  have hline := @layoutMessages_take lexer.file (lexer.codeLine line) shift past later
    (fun token hmem => Int.ne_of_lt (hpast token hmem))
    (fun token hmem => Int.ne_of_gt (hlater token hmem)) count
  rw [account, htokens, linesAhead_of_isCode h.ahead_eq h.isCode, accountOf_cons, hline,
    h.messages_eq hdepth, List.append_assoc past]
  refine congrArg (_ ++ ·) (accountOf_congr _ ?_ ?_)
  · intro other hmem
    exact onLine_take_tokens_append (Nat.ne_of_gt (lt_number_of_mem_linesAhead hmem)) later count
  · exact onLine_take_tokens_append (Nat.ne_of_gt (lt_endOrigin h.ahead_eq)) later count

/-- At a line that fits no block nothing is noted. -/
theorem account_of_misfit (hahead : lexer.ahead = line :: rest) (hcode : line.IsCode)
    {problem : Problem}
    (h : lexer.blocks.resolve lexer.options.isStrict line.indent = .error problem)
    (past : List Token) (count : Nat) :
    messagesUpTo count lexer.run.moments = lexer.account past count := by
  have hrun := run_of_misfit hahead hcode h
  have htokens : lexer.run.tokens = [] := by
    rw [hrun]
    rfl
  have hlast : lexer.lastMessages count = [] := by
    rw [lastMessages, hrun]
    exact if_neg fun hfinished => nomatch hfinished.1
  rw [account, hlast, htokens, List.take_nil, accountOf_nil, hrun, messagesUpTo, upToToken_nil]
  rfl

/-- At a line with a fault the account is right, and nothing is noted behind it. -/
theorem Fits.account_of_fault (h : lexer.Fits line rest next shift) {diagnostic : Diagnostic}
    (hfault : (lexer.codeLine line).fault? lexer.file = some diagnostic) {past : List Token}
    (hpast : ∀ token ∈ past, token.line < lexer.line)
    (hdepth : lexer.blocks.depth + dedents past = indents past) (count : Nat) :
    messagesUpTo count lexer.run.moments = lexer.account past count := by
  have htokens := (h.tokens_of_fault hfault).trans (List.append_nil _).symm
  have hlast : lexer.lastMessages count = [] := by
    rw [lastMessages, h.ending_run, h.run_settled_of_fault hfault]
    exact if_neg fun hfinished => nomatch hfinished.1
  rw [h.account_eq htokens hpast (List.forall_mem_nil _) hdepth, List.take_nil, accountOf_nil,
    hlast, List.append_nil, h.moments_of_fault hfault, messagesUpTo_lineMoments]
  rfl

/-- Behind a line that is read to its end the account goes on. -/
theorem Fits.account_of_finished (h : lexer.Fits line rest next shift)
    (hfault : (lexer.codeLine line).fault? lexer.file = none) {past : List Token}
    (hpast : ∀ token ∈ past, token.line < lexer.line)
    (hdepth : lexer.blocks.depth + dedents past = indents past) (count : Nat) :
    lexer.account past count =
      (if count = 0 then [] else shift.messages lexer.line line.indent.length next.depth) ++
      ((lexer.settled next).advance line rest).account
        (past ++ (lexer.codeLine line).tokens lexer.file shift)
        (count - ((lexer.codeLine line).tokens lexer.file shift).length) := by
  have htokens := h.tokens_of_finished hfault
  have hlater : ∀ token ∈ ((lexer.settled next).advance line rest).run.tokens,
      (lexer.line : Int) < token.line := by
    intro token hmem
    have hle : ((lexer.line + 1 : Nat) : Int) ≤ token.line := le_line_of_mem_run hmem
    omega
  have hlast : lexer.lastMessages count = ((lexer.settled next).advance line rest).lastMessages
      (count - ((lexer.codeLine line).tokens lexer.file shift).length) := by
    have hend : ((lexer.settled next).advance line rest).endOrigin = lexer.endOrigin :=
      endOrigin_advance h.settled.ahead_eq
    have hcount : ((lexer.codeLine line).tokens lexer.file shift ++
        ((lexer.settled next).advance line rest).run.tokens).length < count ↔
          ((lexer.settled next).advance line rest).run.tokens.length <
            count - ((lexer.codeLine line).tokens lexer.file shift).length := by
      rw [List.length_append]
      omega
    rw [lastMessages, lastMessages, htokens, hend, h.ending_run, h.run_settled_of_finished hfault]
    simp only [hcount]
    rfl
  rw [h.account_eq htokens hpast hlater hdepth, hlast, account,
    endOrigin_advance h.settled.ahead_eq]
  rfl

/-- Behind a line that fits the tokens come to the depth of the open blocks again. -/
theorem Fits.depth_add_dedents (h : lexer.Fits line rest next shift) {past : List Token}
    (hdepth : lexer.blocks.depth + dedents past = indents past) (file : Option String) :
    next.depth + dedents (past ++ (lexer.codeLine line).tokens file shift) =
      indents (past ++ (lexer.codeLine line).tokens file shift) := by
  have hmarks := (walks_marks h.resolve_eq ((lexer.codeLine line).origin file)).sum_eq
  have hcontent := (walks_contentTokens next.depth file (lexer.codeLine line)).sum_eq
  rw [CodeLine.tokens, dedents_append, indents_append, dedents_append, indents_append]
  omega

/-- While a lexer reads on, what is noted is what the account says, at any number of tokens. The
    induction is on the lines; what has been handed out before comes to the depth of the blocks. -/
theorem messagesUpTo_run (lexer : Lexer) {past : List Token}
    (hpast : ∀ token ∈ past, token.line < lexer.line)
    (hdepth : lexer.blocks.depth + dedents past = indents past) (count : Nat) :
    messagesUpTo count lexer.run.moments = lexer.account past count := by
  have hgone {lexer : Lexer} {past : List Token} (h : ∀ token ∈ past, token.line < lexer.line) :
      ∀ token ∈ past, token.line < (lexer.line + 1 : Nat) := by
    intro token hmem
    have hline := h token hmem
    omega
  induction lexer using lineInduction generalizing past count with
  | ended lexer hahead => exact account_of_end hahead hpast count
  | blank lexer line rest hahead hcode ih =>
    have hskip := ih (hgone hpast) hdepth count
    rw [account, lastMessages, run_of_blank hahead hcode, linesAhead_of_blank hahead hcode,
      ← endOrigin_advance hahead]
    exact hskip
  | misfit lexer line rest problem hahead hcode hresolve =>
    exact account_of_misfit hahead hcode hresolve past count
  | fault lexer line rest next shift diagnostic hfits hfault =>
    exact hfits.account_of_fault hfault hpast hdepth count
  | finished lexer line rest next shift hfits hfault ih =>
    have hbehind : ∀ token ∈ past ++ (lexer.codeLine line).tokens lexer.file shift,
        token.line < (lexer.line + 1 : Nat) := by
      refine List.forall_mem_append.2 ⟨hgone hpast, ?_⟩
      intro token hmem
      rw [line_tokens shift token hmem]
      exact Int.lt_succ _
    have hrest := ih hbehind (hfits.depth_add_dedents hdepth lexer.file)
      (count - ((lexer.codeLine line).tokens lexer.file shift).length)
    rw [hfits.account_of_finished hfault hpast hdepth, hfits.moments_of_finished hfault,
      messagesUpTo_append, messagesUpTo_lineMoments, filterMap_token?_lineMoments]
    exact congrArg (_ ++ ·) hrest

end Lexer

-- ════════════════════════════════════════════════════════════════════════
-- Whole texts
-- ════════════════════════════════════════════════════════════════════════

/-- A file without a name to show is called by a name that no file has. -/
theorem getD_namedFile? (file : Option String) :
    (namedFile? file).getD "<string>" = shownName file := by
  cases file with
  | none => rfl
  | some name =>
    by_cases hname : name = ""
    · subst hname
      rfl
    · rw [namedFile?, Option.filter_some_pos (by simpa using hname), Option.getD_some, shownName]
      exact hname

theorem message_finished (lines : Nat) (file : Option String) :
    (Note.finished lines (namedFile? file)).message =
      "tokenized " ++ toString lines ++ " line(s) from " ++ shownName file := by
  rw [← getD_namedFile?]
  rfl

/-- All notes are shown to those who ask for every step. -/
theorem notesAt_debug (portion : Portion) : portion.notesAt .debug = portion.notes :=
  List.filter_eq_self.2 fun _ _ => rfl

/-- The account of a text is that of its lexer, at the number of tokens that a portion has. -/
theorem account_ofText (text : String) (file : Option String) (options : Options) {count : Nat}
    {portion : Portion}
    (htokens : portion.tokens = (Lexer.ofText text file options).run.tokens.take count)
    (hstop : portion.stop = .done ↔ (Lexer.ofText text file options).run.ending = .finished ∧
      (Lexer.ofText text file options).run.tokens.length < count) :
    account text file (Lexer.ofText text file options).run.tokens portion =
      (Lexer.ofText text file options).account [] count := by
  have hend : (Lexer.ofText text file options).endOrigin.line = lineCount text.toList + 1 := by
    rw [← length_split, Nat.add_comm]
    rfl
  rw [account, Lexer.account, Lexer.lastMessages, hend, htokens, Nat.add_sub_cancel,
    message_finished]
  simp only [hstop]
  rfl

/-- Behind any first portion of the tokens of a text, what has been noted is a faithful account of
    what has been handed out. -/
theorem messages_pull (text : String) (file : Option String) (options : Options)
    (limit : Option Nat) :
    (((Reader.ofText text file options).pull limit).1.notesAt .debug).map Note.message =
      account text file (Lexer.ofText text file options).run.tokens
        ((Reader.ofText text file options).pull limit).1 := by
  have hrun := (Lexer.ofText text file options).messagesUpTo_run (List.forall_mem_nil _) rfl
  rw [notesAt_debug]
  by_cases hlimit : Exhausts limit (Reader.ofText text file options).pending
  · rw [Reader.pull_of_exhausts _ hlimit]
    have htokens : (Lexer.ofText text file options).run.tokens.length <
        (Lexer.ofText text file options).run.tokens.length + 1 := Nat.lt_succ_self _
    have hstop : (Lexer.ofText text file options).run.ending.stop = .done ↔
        (Lexer.ofText text file options).run.ending = .finished := by
      cases (Lexer.ofText text file options).run.ending <;> simp [Ending.stop]
    rw [account_ofText text file options (List.take_of_length_le (Nat.le_of_lt htokens)).symm
      (hstop.trans (iff_self_and.2 fun _ => htokens)), ← hrun, messagesUpTo,
      upToToken_of_lt htokens]
    rfl
  · obtain ⟨count, -, hle, hpull⟩ := Reader.exists_pull_of_not_exhausts _ hlimit
    rw [hpull]
    have hstop : Stop.limit = .done ↔ (Lexer.ofText text file options).run.ending = .finished ∧
        (Lexer.ofText text file options).run.tokens.length < count :=
      iff_of_false (by decide) fun hover => Nat.not_lt.2 hle hover.2
    rw [account_ofText text file options (Reader.tokens_pullSome _ count) hstop, ← hrun]
    rfl

/-- The account of a text with two blocks, one of which the end of the text closes, in a file
    without a name to show. -/
theorem messages_pull_two_blocks :
    account "a\n  b\n\nc\n d" (some "") (Lexer.ofText "a\n  b\n\nc\n d" (some "")).run.tokens
        ((Reader.ofText "a\n  b\n\nc\n d" (some "")).pull none).1 =
      ["line 2: indent to width 2 (depth 1)", "line 4: dedent 1 level(s) to width 0",
        "line 5: indent to width 1 (depth 1)", "end of input: closing 1 level(s)",
        "tokenized 5 line(s) from <string>"] := by
  rw [← messages_pull]
  decide +kernel

end Offside
