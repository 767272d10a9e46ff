import Mathlib.Data.List.DropRight
import Offside.Proofs.Layout.History
import Offside.Proofs.Reading.Messages
import Offside.Proofs.Reading.MovedLines
import Offside.Proofs.Text.Boundary

/-!
# Two texts in a row

When a text follows another one at the end of a line, it is read as if it stood alone, except
that it is further down and that the blocks of the first one are still open. If its first line
stands at the margin, this line closes them all, just as the end of the first text would have
done, and nothing else of the first text bears on it.
-/

namespace Offside

/-- A token as it is found at the end of a text: it closes a block or marks the end. -/
def Token.isClosing (token : Token) : Bool :=
  token.kind = .layout .dedent || token.kind = .layout .endOfText

/-- The tokens in front of the end of a text. -/
def beforeEnd (tokens : List Token) : List Token :=
  tokens.rdropWhile Token.isClosing

/-- The tokens that close blocks at the end of a text. -/
def endDedents (tokens : List Token) : List Token :=
  (tokens.rtakeWhile Token.isClosing).filter fun token => token.kind = .layout .dedent

def withoutEndMark (tokens : List Token) : List Token :=
  tokens.filter fun token => token.kind ≠ .layout .endOfText

def Token.onto (number : Nat) (token : Token) : Token :=
  { token with line := number }

/-- The number of the first code line of a text, or of the line behind the last if there is
    none. -/
def firstCodeNumber (text : String) : Nat :=
  ((codeLines text).head?.map CodeLine.number).getD (1 + (Line.split text.toList).length)

/-- A text is read behind another one as it is read alone, but further down. The tokens of the
    one in front are given. Its blocks are closed at the first code line that follows. -/
structure ReadsApart (front back : String) (file : Option String) (options : Options)
    (tokens : List Token) : Prop where
  stream_eq : (Lexer.ofText (front ++ back) file options).run.stream =
    { tokens := beforeEnd tokens ++
        (endDedents tokens).map (.onto (firstCodeNumber back + lineFeeds front.toList)) ++
        ((Lexer.ofText back file options).run.stream.moveDown 1 (lineFeeds front.toList)).tokens
      ending := (Lexer.ofText back file options).run.stream.ending.moveDown 1
        (lineFeeds front.toList) }
  unplaced_eq : (withoutEndMark (Lexer.ofText (front ++ back) file options).run.tokens).map
      Token.unplaced =
    (withoutEndMark tokens).map Token.unplaced ++
      (withoutEndMark (Lexer.ofText back file options).run.tokens).map Token.unplaced
  error_eq : ∀ diagnostic, tokenize back file options = .error diagnostic →
    ∃ number : Int, diagnostic.line = some number ∧
      tokenize (front ++ back) file options =
        .error { diagnostic with line := some (number + lineFeeds front.toList) } ∧
      ∃ before behind, diagnostic.message = before ++ toString number ++ behind ∧
        { diagnostic with line := some (number + lineFeeds front.toList) }.message =
          before ++ toString (number + lineFeeds front.toList) ++ behind

-- ════════════════════════════════════════════════════════════════════════
-- The end of a text
-- ════════════════════════════════════════════════════════════════════════

section

variable {strict : Bool} {file : Option String} {lines : List CodeLine}
  {blocks last : OpenBlocks} {front back : List Token}

theorem beforeEnd_append (hfront : ∀ token ∈ front.getLast?, token.isClosing = false)
    (hback : ∀ token ∈ back, token.isClosing = true) : beforeEnd (front ++ back) = front := by
  have hreverse : ∀ token ∈ back.reverse, token.isClosing = true :=
    fun token hmem => hback token (List.mem_reverse.1 hmem)
  rw [beforeEnd, List.rdropWhile, List.reverse_append, List.dropWhile_append_of_pos hreverse]
  obtain rfl | ⟨start, token, rfl⟩ := front.eq_nil_or_concat'
  · rfl
  · have hstop := hfront token List.getLast?_concat
    rw [List.reverse_concat, List.dropWhile_cons_of_neg (by simp [hstop]), List.reverse_cons,
      List.reverse_reverse]

theorem rtakeWhile_append (hfront : ∀ token ∈ front.getLast?, token.isClosing = false)
    (hback : ∀ token ∈ back, token.isClosing = true) :
    (front ++ back).rtakeWhile Token.isClosing = back := by
  have hparts : beforeEnd (front ++ back) ++ (front ++ back).rtakeWhile Token.isClosing =
      front ++ back := List.rdropWhile_append_rtakeWhile
  rw [beforeEnd_append hfront hback] at hparts
  exact List.append_cancel_left hparts

/-- A passage that goes well ends with the end of a line, if it hands out anything. -/
theorem isClosing_getLast?_passAll (hok : (passAll strict file lines blocks).outcome = .ok last) :
    ∀ token ∈ (passAll strict file lines blocks).tokens.getLast?, token.isClosing = false := by
  induction lines generalizing blocks with
  | nil => rintro token ⟨⟩
  | cons line rest ih =>
    obtain ⟨next, shift, -, hfault, hrest, htokens⟩ := outcome_passAll_cons_eq_ok hok
    rw [CodeLine.fault?_eq_none_iff] at hfault
    intro token hlast
    rw [htokens, contentTokens_of_finished hfault, List.getLast?_append, Option.mem_def,
      Option.or_eq_some_iff] at hlast
    obtain hlast | ⟨-, hlast⟩ := hlast
    · exact ih hrest token hlast
    · rw [← List.append_assoc, List.getLast?_concat] at hlast
      cases hlast
      rfl

theorem isClosing_closingTokens {origin : Origin} {marksEnd : Bool} {token : Token}
    (h : token ∈ closingTokens origin marksEnd blocks) : token.isClosing = true := by
  obtain rfl | rfl := eq_mark_of_mem_closingTokens h <;> rfl

/-- What is handed out at the end can be told from the rest by its kind. -/
theorem beforeEnd_passAll_append (hok : (passAll strict file lines blocks).outcome = .ok last)
    (origin : Origin) (marksEnd : Bool) :
    beforeEnd ((passAll strict file lines blocks).tokens ++ closingTokens origin marksEnd last) =
      (passAll strict file lines blocks).tokens :=
  beforeEnd_append (isClosing_getLast?_passAll hok) fun _ hmem => isClosing_closingTokens hmem

theorem endDedents_passAll_append (hok : (passAll strict file lines blocks).outcome = .ok last)
    (origin : Origin) (marksEnd : Bool) :
    endDedents ((passAll strict file lines blocks).tokens ++ closingTokens origin marksEnd last) =
      List.replicate last.depth (origin.mark .dedent) := by
  rw [endDedents, rtakeWhile_append (isClosing_getLast?_passAll hok)
    fun _ hmem => isClosing_closingTokens hmem, closingTokens, List.filter_append,
    List.filter_replicate]
  cases marksEnd <;> simp [Origin.mark]

end

-- ════════════════════════════════════════════════════════════════════════
-- A line at the margin
-- ════════════════════════════════════════════════════════════════════════

section

variable {strict : Bool} {file : Option String} {blocks : OpenBlocks}

/-- A line at the margin belongs to no block. -/
theorem resolve_margin (hn : blocks.Nested) :
    blocks.resolve strict [] = .ok (∅, .closed blocks.depth) := by
  have hsplit : blocks.indents = blocks.indents ++ (∅ : OpenBlocks).indents :=
    (List.append_nil _).symm
  refine OpenBlocks.resolve_of_repeats hsplit ?_ rfl
  intro inside hmem
  have hlevels := hn
  rw [OpenBlocks.Nested, OpenBlocks.levels, List.pairwise_cons] at hlevels
  apply hlevels.1
  rw [List.mem_reverse]
  exact List.mem_map_of_mem hmem

/-- A passage that starts at the margin closes all blocks in front of it, and is the passage that
    starts with none. -/
theorem passAll_cons_margin (hn : blocks.Nested) {line : CodeLine} (hmargin : line.indent = [])
    (rest : List CodeLine) :
    passAll strict file (line :: rest) blocks =
      ⟨List.replicate blocks.depth ((line.origin file).mark .dedent) ++
          (passAll strict file (line :: rest) ∅).tokens,
        (passAll strict file (line :: rest) ∅).outcome⟩ := by
  have hclosed := @resolve_margin strict blocks hn
  have hnone := @resolve_margin strict ∅ OpenBlocks.nested_empty
  rw [← hmargin] at hclosed hnone
  cases hfault : line.fault? file with
  | some diagnostic =>
    rw [passAll_cons_of_fault hclosed hfault, passAll_cons_of_fault hnone hfault]
    rfl
  | none =>
    rw [passAll_cons_of_ok hclosed hfault, passAll_cons_of_ok hnone hfault,
      OpenBlocks.Shift.marks, List.append_assoc]
    rfl

/-- Lines that start at the margin, or no lines at all, are handed out like those of a text of
    its own, behind what closes the blocks in front of them. -/
theorem close_passAll_margin (hn : blocks.Nested) {lines : List CodeLine}
    (hmargin : ∀ line ∈ lines.head?, line.indent = []) (number : Nat) (marksEnd : Bool) :
    (passAll strict file lines blocks).close (closingTokens ⟨number, file⟩ marksEnd) =
      ⟨List.replicate blocks.depth
          (Origin.mark ⟨(lines.head?.map CodeLine.number).getD number, file⟩ .dedent) ++
        ((passAll strict file lines ∅).close (closingTokens ⟨number, file⟩ marksEnd)).tokens,
        ((passAll strict file lines ∅).close (closingTokens ⟨number, file⟩ marksEnd)).ending⟩ := by
  cases lines with
  | nil => rfl
  | cons line rest =>
    rw [passAll_cons_margin hn (hmargin line rfl) rest]
    cases houtcome : (passAll strict file (line :: rest) ∅).outcome with
    | error diagnostic =>
      rw [Passage.close_of_error houtcome]
      rfl
    | ok last =>
      rw [Passage.close_of_ok houtcome]
      show Stream.mk (_ ++ _ ++ _) _ = Stream.mk (_ ++ (_ ++ _)) _
      rw [List.append_assoc]
      rfl

end

-- ════════════════════════════════════════════════════════════════════════
-- Two texts
-- ════════════════════════════════════════════════════════════════════════

theorem one_le_firstCodeNumber (text : String) : 1 ≤ firstCodeNumber text := by
  rw [firstCodeNumber]
  cases hlines : codeLines text with
  | nil => exact Nat.le_add_right _ _
  | cons line rest =>
    have hmem : line ∈ codeLines text := by
      rw [hlines]
      exact List.mem_cons_self
    exact (number_mem_codeLinesFrom hmem).1

section

variable {front back : String} {file : Option String} {options : Options}
  (hfront : EndsLine front.toList)
include hfront

/-- The code lines of two texts in a row are those of the first and those of the second, further
    down. -/
theorem codeLines_append_moveDown :
    codeLines (front ++ back) = codeLines front ++
      (codeLines back).map (CodeLine.moveDown 1 (lineFeeds front.toList)) := by
  rw [codeLines_append hfront, codeLinesFrom_add 1 _ (Nat.le_refl 1)]
  rfl

theorem endOrigin_append :
    (⟨1 + (Line.split (front ++ back).toList).length, file⟩ : Origin) =
      Origin.moveDown 1 (lineFeeds front.toList) ⟨1 + (Line.split back.toList).length, file⟩ := by
  rw [Origin.moveDown, movedNumber_of_le (Nat.le_add_right 1 _), String.toList_append,
    split_append hfront, List.length_append, length_split_of_endsLine hfront]
  congr 1
  omega

/-- A failure in front is all there is. -/
theorem stream_append_of_error {diagnostic : Diagnostic}
    (h : tokenize front file options = .error diagnostic) :
    (Lexer.ofText (front ++ back) file options).run.stream =
      (Lexer.ofText front file options).run.stream := by
  have houtcome := tokenize_eq_error_iff.1 h
  rw [stream_ofText, stream_ofText, codeLines_append_moveDown hfront, passAll_append,
    Passage.andThen_of_error houtcome, Passage.close_of_error houtcome,
    Passage.close_of_error houtcome]

/-- Behind a text that is read without failure, the lines of the next are read with the blocks
    that are still open. -/
theorem stream_append_of_ok {blocks : OpenBlocks}
    (h : (passAll options.isStrict file (codeLines front) ∅).outcome = .ok blocks) :
    ∃ rest : Stream, rest = ((passAll options.isStrict file (codeLines back) blocks).close
        (closingTokens ⟨1 + (Line.split back.toList).length, file⟩ options.marksEnd)).moveDown
          1 (lineFeeds front.toList) ∧
      (Lexer.ofText (front ++ back) file options).run.stream =
        ⟨(passAll options.isStrict file (codeLines front) ∅).tokens ++ rest.tokens,
          rest.ending⟩ := by
  refine ⟨_, rfl, ?_⟩
  rw [stream_ofText, codeLines_append_moveDown hfront, passAll_append,
    Passage.close_andThen_of_ok h, endOrigin_append hfront, passAll_moveDown, close_moveDown]

/-- A text that starts at the margin closes the blocks of the text in front of it, and is then
    read as if it stood alone. -/
theorem stream_append_margin {tokens : List Token} (h : tokenize front file options = .ok tokens)
    (hmargin : ∀ line ∈ (codeLines back).head?, line.indent = []) :
    (Lexer.ofText (front ++ back) file options).run.stream =
      { tokens := beforeEnd tokens ++
          (endDedents tokens).map (.onto (firstCodeNumber back + lineFeeds front.toList)) ++
          ((Lexer.ofText back file options).run.stream.moveDown 1 (lineFeeds front.toList)).tokens
        ending := (Lexer.ofText back file options).run.stream.ending.moveDown 1
          (lineFeeds front.toList) } := by
  obtain ⟨last, houtcome, rfl⟩ := tokenize_eq_ok_iff.1 h
  obtain ⟨rest, hrest, hstream⟩ := stream_append_of_ok hfront houtcome
  have hmark : (Origin.mark ⟨firstCodeNumber back, file⟩ .dedent).moveDown 1
      (lineFeeds front.toList) =
        Origin.mark ⟨firstCodeNumber back + lineFeeds front.toList, file⟩ .dedent := by
    rw [mark_moveDown, Origin.moveDown, movedNumber_of_le (one_le_firstCodeNumber back)]
  rw [close_passAll_margin (records_nil.passAll houtcome).nested hmargin, ← stream_ofText] at hrest
  rw [hstream, hrest, beforeEnd_passAll_append houtcome, endDedents_passAll_append houtcome,
    List.map_replicate, List.append_assoc]
  show Stream.mk (_ ++ List.map _ (_ ++ _)) _ = _
  rw [List.map_append, List.map_replicate]
  exact congrArg (fun mark => Stream.mk (_ ++ (List.replicate _ mark ++ _)) _) hmark

end

theorem withoutEndMark_eq (tokens : List Token) :
    withoutEndMark tokens = withoutEndMark (beforeEnd tokens) ++ endDedents tokens := by
  have hclosing : withoutEndMark (tokens.rtakeWhile Token.isClosing) = endDedents tokens := by
    apply List.filter_congr
    intro token hmem
    have hkind := List.mem_rtakeWhile_imp hmem
    rw [Token.isClosing, Bool.or_eq_true, decide_eq_true_iff, decide_eq_true_iff] at hkind
    obtain hkind | hkind := hkind <;> simp [hkind]
  rw [← hclosing, beforeEnd, withoutEndMark, withoutEndMark, withoutEndMark, ← List.filter_append,
    List.rdropWhile_append_rtakeWhile]

theorem map_unplaced_withoutEndMark_append (front back : List Token) :
    (withoutEndMark (front ++ back)).map Token.unplaced =
      (withoutEndMark front).map Token.unplaced ++ (withoutEndMark back).map Token.unplaced := by
  rw [withoutEndMark, List.filter_append, List.map_append]
  rfl

/-- Where a token stands has no bearing on what it says. -/
theorem map_unplaced_withoutEndMark_map (move : Token → Token)
    (hkind : ∀ token, (move token).kind = token.kind)
    (hunplaced : ∀ token, (move token).unplaced = token.unplaced) (tokens : List Token) :
    (withoutEndMark (tokens.map move)).map Token.unplaced =
      (withoutEndMark tokens).map Token.unplaced := by
  have hkept : (fun token : Token => decide (token.kind ≠ .layout .endOfText)) ∘ move =
      fun token => decide (token.kind ≠ .layout .endOfText) := by
    funext token
    rw [Function.comp_apply, hkind]
  have hsame : Token.unplaced ∘ move = Token.unplaced := funext hunplaced
  rw [withoutEndMark, List.filter_map, hkept, List.map_map, hsame]
  rfl

theorem withoutEndMark_endDedents (tokens : List Token) :
    withoutEndMark (endDedents tokens) = endDedents tokens := by
  refine List.filter_eq_self.2 ?_
  intro token hmem
  have hkind := of_decide_eq_true (List.mem_filter.1 hmem).2
  rw [hkind]
  rfl

/-- A diagnostic about a line that has moved down is the same but for the number of the line, and
    so is its message. -/
theorem Diagnostic.moveDown_of_line {diagnostic : Diagnostic} {number : Int} (count : Nat)
    (hline : diagnostic.line = some number) (hpos : 1 ≤ number) :
    diagnostic.moveDown 1 count = { diagnostic with line := some (number + count) } := by
  have hmoved : movedLine 1 count number = number + count := if_pos hpos
  rw [moveDown, hline, Option.map_some, hmoved]

theorem exists_line_of_tokenize {text : String} {file : Option String} {options : Options}
    {diagnostic : Diagnostic} (h : tokenize text file options = .error diagnostic) :
    ∃ number : Int, diagnostic.line = some number ∧ 1 ≤ number := by
  obtain ⟨line, hmem, hline⟩ := exists_line_of_outcome_error (tokenize_eq_error_iff.1 h)
  have hpos := (number_mem_codeLinesFrom hmem).1
  exact ⟨line.number, hline, by omega⟩

section

variable {front back : String} {file : Option String} {options : Options}

theorem readsApart (hfront : EndsLine front.toList) {tokens : List Token}
    (h : tokenize front file options = .ok tokens)
    (hmargin : ∀ line ∈ (codeLines back).head?, line.indent = []) :
    ReadsApart front back file options tokens := by
  have hstream := stream_append_margin hfront h hmargin
  refine ⟨hstream, ?_, ?_⟩
  · have htokens := congrArg Stream.tokens hstream
    change (Lexer.ofText (front ++ back) file options).run.tokens = _ at htokens
    rw [htokens, withoutEndMark_eq tokens, map_unplaced_withoutEndMark_append,
      map_unplaced_withoutEndMark_append, List.map_append]
    have honto := map_unplaced_withoutEndMark_map
      (Token.onto (firstCodeNumber back + lineFeeds front.toList)) (fun _ => rfl) (fun _ => rfl)
      (endDedents tokens)
    have hmoved := map_unplaced_withoutEndMark_map (Token.moveDown 1 (lineFeeds front.toList))
      (fun _ => rfl) (fun _ => rfl) (Lexer.ofText back file options).run.tokens
    rw [withoutEndMark_endDedents] at honto
    rw [honto]
    exact congrArg (_ ++ ·) hmoved
  · intro diagnostic hfails
    obtain ⟨number, hline, hpos⟩ := exists_line_of_tokenize hfails
    have hending := tokenize_eq_error_iff_ending.1 hfails
    have hmoved := diagnostic.moveDown_of_line (lineFeeds front.toList) hline hpos
    refine ⟨number, hline, ?_, diagnostic.beforeLine, diagnostic.behindLine,
      Diagnostic.message_of_line hline, Diagnostic.message_of_line rfl⟩
    rw [tokenize_eq_error_iff_ending, hstream]
    show Ending.moveDown _ _ _ = _
    rw [hending, ← hmoved]
    rfl

/-- Two texts in a row, the first of which ends where a line ends. If the first one fails, nothing
    of the second is read. If not, what was handed out in front of its end is handed out again,
    and if the second starts at the margin, or has no code line, the two are read one after the
    other. -/
theorem stream_append (hfront : EndsLine front.toList) (back : String) (file : Option String)
    (options : Options) :
    (∀ diagnostic, tokenize front file options = .error diagnostic →
      (Lexer.ofText (front ++ back) file options).run.stream =
        (Lexer.ofText front file options).run.stream) ∧
    ∀ tokens, tokenize front file options = .ok tokens →
      beforeEnd tokens <+: (Lexer.ofText (front ++ back) file options).run.tokens ∧
      ((∀ line ∈ (codeLines back).head?, line.indent = []) →
        ReadsApart front back file options tokens) := by
  refine ⟨fun _ => stream_append_of_error hfront, ?_⟩
  intro tokens h
  refine ⟨?_, readsApart hfront h⟩
  obtain ⟨last, houtcome, rfl⟩ := tokenize_eq_ok_iff.1 h
  obtain ⟨rest, -, hstream⟩ := @stream_append_of_ok front back file options hfront last houtcome
  have htokens := congrArg Stream.tokens hstream
  change (Lexer.ofText (front ++ back) file options).run.tokens = _ at htokens
  rw [htokens, beforeEnd_passAll_append houtcome]
  exact List.prefix_append _ _

/-- The block that is open at the end of the first text is closed on the line of the second one,
    and the fault behind it is reported there. -/
theorem stream_append_open_block :
    EndsLine "a\n  b\n".toList ∧
      (∃ tokens, tokenize "a\n  b\n" = .ok tokens ∧
        ReadsApart "a\n  b\n" "\n# x\nc ?" none {} tokens) ∧
      tokenize "\n# x\nc ?" = .error ⟨.unrecognized "?", some 3, some 3, none⟩ ∧
      tokenize "a\n  b\n\n# x\nc ?" = .error ⟨.unrecognized "?", some 5, some 3, none⟩ := by
  have hfront : EndsLine "a\n  b\n".toList := by decide +kernel
  have hmargin : ∀ line ∈ (codeLines "\n# x\nc ?").head?, line.indent = [] := by decide +kernel
  have hback : tokenize "\n# x\nc ?" = .error ⟨.unrecognized "?", some 3, some 3, none⟩ := by
    decide +kernel
  obtain ⟨tokens, htokens⟩ : ∃ tokens, tokenize "a\n  b\n" = .ok tokens :=
    exists_tokenize_eq_ok (by decide +kernel)
  have happend := stream_append hfront "\n# x\nc ?" none {}
  have hapart := (happend.2 tokens htokens).2 hmargin
  obtain ⟨number, hline, hfails, -⟩ := hapart.error_eq _ hback
  cases hline
  exact ⟨hfront, ⟨tokens, htokens, hapart⟩, hback, hfails⟩

end

end Offside
