import Offside.Proofs.Layout.BlockStructure
import Offside.Proofs.Reading.Places
import Offside.Proofs.Reading.Stops

/-!
# The words of a reading

The tokens of a text have a shape that can be said without the text. Line after line, there is the
layout of the line, something on it, and its end; then the blocks are closed that are still open,
and the end of the text may be marked. Whatever is handed out, from any text and up to any point,
begins a word of this shape, and it is a whole word where the reading ends without failure.
-/

namespace Offside

/-- The layout of a line: one block is opened, or some are closed. -/
inductive LayoutWord : List Token → Prop where
  | opened {token : Token} (hkind : token.kind = .layout .indent) : LayoutWord [token]
  | closed {tokens : List Token} (hkind : ∀ token ∈ tokens, token.kind = .layout .dedent) :
      LayoutWord tokens

/-- The tokens of one line: its layout, at least one lexeme, and the end of the line, all of them
    on the line with the given number. -/
inductive LineWord (number : Int) : List Token → Prop where
  | mk {layout lexemes : List Token} {newline : Token} (hlayout : LayoutWord layout)
      (hlexemes : ∀ token ∈ lexemes, token.isStructural = false) (hsome : lexemes ≠ [])
      (hend : newline.kind = .layout .newline)
      (hline : ∀ token ∈ layout ++ lexemes ++ [newline], token.line = number) :
      LineWord number (layout ++ lexemes ++ [newline])

/-- The tokens of a text: those of one line after the other, and then, on one line, the ends of
    some blocks and perhaps the end of the text. -/
inductive TextWord : List Token → Prop where
  | close {number : Int} {dedents endMarks : List Token}
      (hdedents : ∀ token ∈ dedents, token.kind = .layout .dedent)
      (hend : endMarks = [] ∨ ∃ token, endMarks = [token] ∧ token.kind = .layout .endOfText)
      (hline : ∀ token ∈ dedents ++ endMarks, token.line = number) :
      TextWord (dedents ++ endMarks)
  | line {number : Int} {line rest : List Token} (hline : LineWord number line)
      (hrest : TextWord rest) : TextWord (line ++ rest)

/-- A token of layout or of the end of a text: it has no text, and stands in the first column. -/
structure Token.IsMark (token : Token) : Prop where
  value_eq : token.value = ""
  column_eq : token.column = 1

theorem layoutWord_marks (origin : Origin) (shift : OpenBlocks.Shift) :
    LayoutWord (shift.marks origin) := by
  cases shift with
  | opened => exact .opened rfl
  | closed count =>
    refine .closed ?_
    intro token hmem
    rw [List.eq_of_mem_replicate hmem]
    rfl

theorem textWord_nil : TextWord [] :=
  @TextWord.close 0 [] [] (List.forall_mem_nil _) (.inl rfl) (List.forall_mem_nil _)

theorem textWord_closingTokens (origin : Origin) (marksEnd : Bool) (blocks : OpenBlocks) :
    TextWord (closingTokens origin marksEnd blocks) := by
  refine .close ?_ ?_ (fun token hmem => line_closingTokens hmem)
  · intro token hmem
    rw [List.eq_of_mem_replicate hmem]
    rfl
  · cases marksEnd with
    | false => exact .inl rfl
    | true => exact .inr ⟨_, rfl, rfl⟩

/-- Layout and lexemes of a line begin the word of a line, also when none of the lexemes is there
    yet: one more can follow, and then the end of the line. -/
theorem LayoutWord.exists_lineWord {number : Int} {layout lexemes : List Token}
    (hlayout : LayoutWord layout) (hlexemes : ∀ token ∈ lexemes, token.isStructural = false)
    (hline : ∀ token ∈ layout ++ lexemes, token.line = number) :
    ∃ word, LineWord number word ∧ layout ++ lexemes <+: word := by
  refine ⟨layout ++ (lexemes ++ [{ kind := .identifier, line := number }]) ++
    [{ kind := .layout .newline, line := number }],
    .mk hlayout ?_ (List.concat_ne_nil _ _) rfl ?_, ?_⟩
  · exact List.forall_mem_append.2 ⟨hlexemes, by simp [Token.isStructural, Kind.isStructural]⟩
  · rw [← List.append_assoc]
    exact List.forall_mem_append.2 ⟨List.forall_mem_append.2 ⟨hline, by simp⟩, by simp⟩
  · rw [← List.append_assoc, List.append_assoc]
    exact List.prefix_append _ _

section

variable {file : Option String} {line : CodeLine}

theorem line_tokens (shift : OpenBlocks.Shift) :
    ∀ token ∈ line.tokens file shift, token.line = line.number :=
  List.forall_mem_append.2 ⟨fun _ hmem => line_marks hmem, fun _ hmem => line_contentTokens hmem⟩

theorem kind_tokens_ne (shift : OpenBlocks.Shift) :
    ∀ token ∈ line.tokens file shift, token.kind ≠ .layout .endOfText := by
  refine List.forall_mem_append.2 ⟨?_, ?_⟩
  · intro token hmem
    obtain rfl | rfl := eq_mark_of_mem_marks hmem <;> simp [Origin.mark]
  · intro token hmem heq
    obtain hkind | hkind := isStructural_contentTokens hmem
    · rw [heq] at hkind
      cases hkind
    · rw [heq] at hkind
      cases hkind

theorem isMark_tokens (shift : OpenBlocks.Shift) :
    ∀ token ∈ line.tokens file shift, token.isOfLine = false → token.IsMark := by
  refine List.forall_mem_append.2 ⟨?_, ?_⟩
  · intro token hmem _
    obtain rfl | rfl := eq_mark_of_mem_marks hmem <;> exact ⟨rfl, rfl⟩
  · intro token hmem hother
    have hof := List.filter_eq_self.1 (filter_isOfLine_contentTokens file line) token hmem
    rw [hother] at hof
    cases hof

/-- A line that is read to its end makes the word of a line. -/
theorem lineWord_of_finished (shift : OpenBlocks.Shift) (hfault : line.content.fault = none)
    (hsome : line.content.lexemes.map (·.token (line.origin file)) ≠ []) :
    LineWord line.number (line.tokens file shift) := by
  have hline := @line_tokens file line shift
  rw [CodeLine.tokens, contentTokens_of_finished hfault, ← List.append_assoc] at hline ⊢
  exact .mk (layoutWord_marks _ shift) (fun _ hmem => isStructural_of_mem_lexemes hmem) hsome rfl
    hline

/-- A line with a fault begins the word of a line. -/
theorem exists_lineWord_of_fault {fault : Fault} (shift : OpenBlocks.Shift)
    (hfault : line.content.fault = some fault) :
    ∃ word, LineWord line.number word ∧ line.tokens file shift <+: word := by
  have hline := @line_tokens file line shift
  rw [CodeLine.tokens, contentTokens_of_fault hfault] at hline ⊢
  exact (layoutWord_marks _ shift).exists_lineWord (fun _ hmem => isStructural_of_mem_lexemes hmem)
    hline

end

theorem map_fst_map_stop (tokens : List Token) (lexer : Lexer) :
    (tokens.map (·, lexer)).map Prod.fst = tokens := by
  rw [List.map_map]
  exact List.map_id tokens

theorem Lexer.lexemes_ne_nil_of_finished {lexer : Lexer} {line : Line} (hcode : line.IsCode)
    (hfault : (lexer.codeLine line).content.fault = none) (origin : Origin) :
    (lexer.codeLine line).content.lexemes.map (·.token origin) ≠ [] := by
  have hcontent :
      ¬ WithoutContent ((lexer.codeLine line).indent ++ (lexer.codeLine line).body) := by
    show ¬ WithoutContent (line.indent ++ line.body)
    rw [line.indent_append_body]
    exact Line.isCode_iff.1 hcode
  have hblank : AllBlank (lexer.codeLine line).indent := isBlank_indent line
  exact lexemes_ne_nil hblank hcontent hfault origin

namespace Reads

variable {lexer last : Lexer} {stops : List (Token × Lexer)} {ending : Ending}

/-- What a lexer hands out begins a word, and is one if the reading ends without failure. A line
    that fails is the last one. -/
theorem exists_textWord (h : Reads lexer stops ending last) :
    ∃ word, TextWord word ∧ stops.map Prod.fst <+: word ∧
      (ending = .finished → word = stops.map Prod.fst) := by
  induction h with
  | closed hahead =>
    rw [map_fst_map_stop]
    exact ⟨_, textWord_closingTokens _ _ _, List.prefix_refl _, fun _ => rfl⟩
  | blank hahead hcode hrest ih => exact ih
  | misfit hahead hcode hresolve => exact ⟨[], textWord_nil, List.nil_prefix, nofun⟩
  | @fault lexer line rest next shift diagnostic hfits hfault =>
    rw [CodeLine.fault?_eq, Option.map_eq_some_iff] at hfault
    obtain ⟨fault, hfault, -⟩ := hfault
    obtain ⟨word, hword, hfront⟩ := exists_lineWord_of_fault shift hfault
    rw [map_fst_map_stop]
    exact ⟨word ++ [], .line hword textWord_nil, hfront.trans (List.prefix_append _ _), nofun⟩
  | @line lexer last line rest next shift stops ending hfits hfault hrest ih =>
    rw [CodeLine.fault?_eq_none_iff] at hfault
    obtain ⟨word, hword, hfront, hwhole⟩ := ih
    have hline : LineWord lexer.line ((lexer.codeLine line).tokens lexer.file shift) :=
      lineWord_of_finished shift hfault (lexer.lexemes_ne_nil_of_finished hfits.isCode hfault _)
    rw [List.map_append, map_fst_map_stop]
    refine ⟨_, .line hline hword, (List.prefix_append_right_inj _).2 hfront, ?_⟩
    intro hfinished
    rw [hwhole hfinished]

/-- The end of the text is marked once, behind everything else, if it is reached and is to be
    marked at all. -/
theorem exists_endMark (h : Reads lexer stops ending last) :
    ∃ front, stops.map Prod.fst = front ++
        (if ending = .finished ∧ lexer.options.marksEnd then [lexer.endOrigin.mark .endOfText]
          else []) ∧
      ∀ token ∈ front, token.kind ≠ .layout .endOfText := by
  induction h with
  | @closed lexer hahead =>
    have hend : lexer.endOrigin = lexer.origin := by
      rw [Lexer.endOrigin, hahead]
      rfl
    rw [map_fst_map_stop, hend]
    refine ⟨List.replicate lexer.blocks.depth (lexer.origin.mark .dedent), ?_, ?_⟩
    · simp only [closingTokens, true_and]
    · intro token hmem
      rw [List.eq_of_mem_replicate hmem]
      simp [Origin.mark]
  | blank hahead hcode hrest ih =>
    rw [Lexer.endOrigin_advance hahead] at ih
    exact ih
  | misfit hahead hcode hresolve => exact ⟨[], rfl, List.forall_mem_nil _⟩
  | fault hfits hfault =>
    rw [map_fst_map_stop]
    exact ⟨_, (List.append_nil _).symm, kind_tokens_ne _⟩
  | line hfits hfault hrest ih =>
    rw [Lexer.endOrigin_advance hfits.settled.ahead_eq] at ih
    obtain ⟨front, htokens, hfront⟩ := ih
    rw [List.map_append, map_fst_map_stop, htokens, ← List.append_assoc]
    exact ⟨_, rfl, List.forall_mem_append.2 ⟨kind_tokens_ne _, hfront⟩⟩

/-- What is handed out beside the text of the lines has no text of its own. -/
theorem isMark (h : Reads lexer stops ending last) :
    ∀ token ∈ stops.map Prod.fst, token.isOfLine = false → token.IsMark := by
  induction h with
  | closed hahead =>
    rw [map_fst_map_stop]
    intro token hmem _
    obtain rfl | rfl := eq_mark_of_mem_closingTokens hmem <;> exact ⟨rfl, rfl⟩
  | blank hahead hcode hrest ih => exact ih
  | misfit hahead hcode hresolve => exact List.forall_mem_nil _
  | fault hfits hfault =>
    rw [map_fst_map_stop]
    exact isMark_tokens _
  | line hfits hfault hrest ih =>
    rw [List.map_append, map_fst_map_stop]
    exact List.forall_mem_append.2 ⟨isMark_tokens _, ih⟩

end Reads

end Offside
