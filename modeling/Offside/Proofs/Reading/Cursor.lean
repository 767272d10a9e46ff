import Offside.Proofs.Layout.Words
import Offside.Proofs.Text.Boundary

/-!
# Where a lexer stands

A lexer goes from the start of one line to the start of the next, and counts the lines and the
characters behind it. It stays at the start of a line as long as the tokens of the line are handed
out, with the blocks as the line has left them; it is only behind the last line, with all blocks
closed, that the tokens for the end of the text are handed out.
-/

namespace Offside

namespace Lexer

/-- A lexer that has come line by line to some place of a text. Either it stands where a line may
    start, which is behind a line feed or at the start of the text, and has counted the line feeds
    in front of it; or it stands one past the end of a text whose last line has no line feed, and
    has counted this line too. -/
inductive StandsIn (text : List Char) (lexer : Lexer) : Prop where
  | lineStart {front back : List Char} (htext : text = front ++ back) (hfront : EndsLine front)
      (hahead : lexer.ahead = Line.split back) (hposition : lexer.position = front.length)
      (hline : lexer.line = lineFeeds front + 1)
  | pastEnd (htext : ¬ EndsLine text) (hahead : lexer.ahead = [])
      (hposition : lexer.position = text.length + 1) (hline : lexer.line = lineFeeds text + 1 + 1)

/-- Where a lexer stands when a token is handed out. A token of a line is handed out at the start
    of this line, whose block is the innermost one then. The tokens for the end of the text are
    handed out behind all lines, when no block is open any more. -/
inductive StandsAt (lexer : Lexer) (token : Token) : Prop where
  | ofLine {line : Line} {rest : List Line} (hahead : lexer.ahead = line :: rest)
      (hcode : line.IsCode) (hwidth : lexer.blocks.width = line.indent.length)
      (hline : token.line = lexer.line) (hkind : token.kind ≠ .layout .endOfText)
  | ofEnd (hahead : lexer.ahead = []) (hblocks : lexer.blocks = ∅) (hline : token.line = lexer.line)
      (hkind : token.kind = .layout .dedent ∨ token.kind = .layout .endOfText)

/-- Where a lexer stands when a reading is over: behind all lines, when no block is open any more,
    or at the start of the line that fails. -/
inductive EndsWith (lexer : Lexer) : Ending → Prop where
  | finished (hahead : lexer.ahead = []) (hblocks : lexer.blocks = ∅) : EndsWith lexer .finished
  | failed {line : Line} {rest : List Line} {diagnostic : Diagnostic}
      (hahead : lexer.ahead = line :: rest) (hcode : line.IsCode)
      (hline : diagnostic.line = some (lexer.line : Int)) : EndsWith lexer (.failed diagnostic)

theorem standsIn_ofText (text : String) (file : Option String) (options : Options) :
    (ofText text file options).StandsIn text.toList :=
  @StandsIn.lineStart _ _ [] text.toList rfl nofun rfl rfl rfl

variable {text : List Char} {lexer : Lexer}

/-- Open blocks have no part in where a lexer stands. -/
theorem StandsIn.settled (h : lexer.StandsIn text) (blocks : OpenBlocks) :
    (lexer.settled blocks).StandsIn text := by
  cases h with
  | lineStart htext hfront hahead hposition hline =>
    exact .lineStart htext hfront hahead hposition hline
  | pastEnd htext hahead hposition hline => exact .pastEnd htext hahead hposition hline

/-- Behind a line a lexer stands at the start of the next one, or behind the last one. -/
theorem StandsIn.advance (h : lexer.StandsIn text) {line : Line} {rest : List Line}
    (hahead : lexer.ahead = line :: rest) : (lexer.advance line rest).StandsIn text := by
  cases h with
  | pastEnd htext hnone hposition hline =>
    rw [hahead] at hnone
    cases hnone
  | @lineStart front back htext hfront hback hposition hline =>
    rw [hahead] at hback
    obtain ⟨piece, behind, rfl, hpiece, rfl, rfl⟩ | ⟨hne, hfeed, rfl, rfl⟩ :=
      split_eq_cons hback.symm
    · refine @StandsIn.lineStart _ _ (front ++ piece ++ ['\n']) behind ?_ ?_ rfl ?_ ?_
      · rw [htext, List.append_assoc, List.append_assoc]
        rfl
      · intro c hmem
        rw [List.getLast?_concat] at hmem
        exact (Option.some.inj hmem).symm
      · show lexer.position + (piece.length + 1) = _
        rw [hposition, List.length_append, List.length_append, List.length_singleton,
          Nat.add_assoc]
      · show lexer.line + 1 = _
        rw [hline, lineFeeds, lineFeeds, List.count_append, List.count_append,
          List.count_eq_zero_of_not_mem hpiece, List.count_singleton_self]
    · -- Without a line feed the line is the last one, and its extent leads past the end.
      refine .pastEnd ?_ rfl ?_ ?_
      · intro hends
        rw [htext, EndsLine, List.getLast?_append_of_ne_nil _ hne,
          List.getLast?_eq_some_getLast hne] at hends
        exact hfeed (hends _ rfl ▸ List.getLast_mem hne)
      · show lexer.position + (back.length + 1) = _
        rw [hposition, htext, List.length_append, Nat.add_assoc]
      · show lexer.line + 1 = _
        rw [hline, htext, lineFeeds, lineFeeds, List.count_append,
          List.count_eq_zero_of_not_mem hfeed]

/-- While the tokens of a line are handed out, the lexer stays at its start, in its block. -/
theorem Fits.standsAt {line : Line} {rest : List Line} {next : OpenBlocks}
    {shift : OpenBlocks.Shift} (h : lexer.Fits line rest next shift) :
    ∀ stop ∈ ((lexer.codeLine line).tokens lexer.file shift).map (·, lexer.settled next),
      stop.2.StandsAt stop.1 :=
  List.forall_mem_map.2 fun token hmem =>
    .ofLine h.ahead_eq h.isCode (OpenBlocks.width_resolve h.resolve_eq)
      (line_tokens shift token hmem) (kind_tokens_ne shift token hmem)

end Lexer

namespace Reads

variable {lexer last : Lexer} {stops : List (Token × Lexer)} {ending : Ending}

/-- Wherever a reading can be left, the lexer stands at the start of a line or behind the last. -/
theorem standsIn {text : List Char} (h : Reads lexer stops ending last)
    (hstart : lexer.StandsIn text) : (∀ stop ∈ stops, stop.2.StandsIn text) ∧ last.StandsIn text :=
  h.invariant (fun _ _ _ next _ _ hstands => hstands.settled next)
    (fun _ _ _ hahead hstands => hstands.advance hahead)
    (fun _ _ hstands => hstands.settled ∅) hstart

/-- Wherever a reading can be left, the levels of the open blocks increase. -/
theorem nested (h : Reads lexer stops ending last) (hstart : lexer.blocks.Nested) :
    (∀ stop ∈ stops, stop.2.blocks.Nested) ∧ last.blocks.Nested :=
  @Reads.invariant (fun lexer => lexer.blocks.Nested) _ _ _ _ h
    (fun _ _ _ _ _ hfits hnested => hnested.resolve hfits.resolve_eq)
    (fun _ _ _ _ hnested => hnested) (fun _ _ _ => OpenBlocks.nested_empty) hstart

/-- Every token is handed out at its own line, or behind all lines if it is from there. -/
theorem standsAt (h : Reads lexer stops ending last) :
    ∀ stop ∈ stops, stop.2.StandsAt stop.1 := by
  induction h with
  | closed hahead =>
    refine List.forall_mem_map.2 ?_
    intro token hmem
    refine .ofEnd hahead rfl (line_closingTokens hmem) ?_
    obtain rfl | rfl := eq_mark_of_mem_closingTokens hmem
    · exact .inl rfl
    · exact .inr rfl
  | blank hahead hcode hrest ih => exact ih
  | misfit hahead hcode hresolve => exact List.forall_mem_nil _
  | fault hfits hfault => exact hfits.standsAt
  | line hfits hfault hrest ih => exact List.forall_mem_append.2 ⟨hfits.standsAt, ih⟩

/-- A reading is over behind all lines, or at the line that fails. -/
theorem endsWith (h : Reads lexer stops ending last) : last.EndsWith ending := by
  induction h with
  | closed hahead => exact .finished hahead rfl
  | blank hahead hcode hrest ih => exact ih
  | misfit hahead hcode hresolve => exact .failed hahead hcode rfl
  | fault hfits hfault =>
    exact .failed hfits.ahead_eq hfits.isCode (CodeLine.category_and_line_of_fault? hfault).2
  | line hfits hfault hrest ih => exact ih

end Reads

end Offside
