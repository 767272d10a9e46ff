import Offside.Proofs.Content.Columns
import Offside.Proofs.Content.Trailing
import Offside.Proofs.Reading.SideBySide
import Offside.Proofs.Text.LineEndings
import Offside.Proofs.Text.NumberedLines

/-!
# Text put behind a line

Blanks can be put behind any line of a text, and a comment behind them. Only the end of that line
moves, if the line has one to hand out: the lexemes stay, a fault stays, and a line without content
stays one.
-/

namespace Offside

/-- A line with something put behind what stands on it. A carriage return that belongs to the
    ending of the line stays at the end. -/
def extendPiece (inserted piece : List Char) : List Char :=
  withoutReturn piece ++ inserted ++ if piece.getLast? = some '\r' then ['\r'] else []

/-- The line that is found at some number when something is put behind the line with another. -/
def extendAt (number : Nat) (inserted : List Char) (found : Nat) (piece : List Char) : List Char :=
  if found = number then extendPiece inserted piece else piece

/-- A text with something put behind the line with the given number. -/
def insertBehind (number : Nat) (inserted : List Char) (text : String) : String :=
  String.ofList (mapNumbered (extendAt number inserted) text.toList)

def CodeLine.extend (number : Nat) (inserted : List Char) (line : CodeLine) : CodeLine :=
  if line.number = number then { line with body := line.body ++ inserted } else line

/-- A token of a text in which one line has become longer: its end moves. -/
def Token.moveEnd (number count : Nat) (token : Token) : Token :=
  if token.kind = .layout .newline ∧ token.line = number then token.moveRight count else token

-- ════════════════════════════════════════════════════════════════════════
-- The longer line
-- ════════════════════════════════════════════════════════════════════════

/-- Of a line that has something behind its blanks, only the part behind them becomes longer. -/
theorem indent_and_body_of_text_append {line line' : Line} {inserted : List Char}
    (htext : line'.text = line.text ++ inserted) (h : line.body ≠ []) :
    line'.indent = line.indent ∧ line'.body = line.body ++ inserted := by
  have hbody : line'.body = line.body ++ inserted := by
    rw [Line.body, htext, List.dropWhile_append]
    exact if_neg (mt List.isEmpty_iff.1 h)
  refine ⟨?_, hbody⟩
  rw [← line.indent_append_body, ← line'.indent_append_body, hbody, List.append_assoc] at htext
  exact List.append_cancel_right htext

section

variable {inserted piece : List Char} (hreturn : '\r' ∉ inserted)
include hreturn

/-- What stands on the line is what stood there, and what is put behind it. -/
theorem text_ofPiece_extendPiece (piece : List Char) :
    (Line.ofPiece (extendPiece inserted piece)).text = (Line.ofPiece piece).text ++ inserted := by
  by_cases hlast : piece.getLast? = some '\r'
  · rw [extendPiece, if_pos hlast, text_ofPiece_concat_return]
    rfl
  · have hnew : (piece ++ inserted).getLast? ≠ some '\r' := by
      rw [List.getLast?_append]
      intro hsome
      obtain hend | ⟨-, hend⟩ := Option.or_eq_some_iff.1 hsome
      · exact hreturn (List.mem_of_getLast? hend)
      · exact hlast hend
    rw [extendPiece, if_neg hlast, withoutReturn, if_neg hlast, List.append_nil,
      text_ofPiece_of_getLast?_ne hnew, text_ofPiece_of_getLast?_ne hlast]

/-- The longer line is a code line just when the line was one, with the same indentation. -/
theorem codeLine?_extendPiece (hinserted : WithoutContent inserted) (number : Nat) :
    (Line.ofPiece (extendPiece inserted piece)).codeLine? number =
      ((Line.ofPiece piece).codeLine? number).map (CodeLine.extend number inserted) := by
  have htext := text_ofPiece_extendPiece hreturn piece
  by_cases hcode : (Line.ofPiece piece).IsCode
  · have hsome : (Line.ofPiece piece).body ≠ [] := by
      obtain ⟨c, hhead, -⟩ := hcode
      rintro hnil
      rw [hnil] at hhead
      cases hhead
    obtain ⟨hindent, hbody⟩ := indent_and_body_of_text_append htext hsome
    have hnew : (Line.ofPiece (extendPiece inserted piece)).IsCode := by
      rw [Line.IsCode, hbody, List.head?_append_of_ne_nil _ hsome]
      exact hcode
    rw [Line.codeLine?_of_isCode hcode, Line.codeLine?_of_isCode hnew, hindent, hbody,
      Option.map_some, CodeLine.extend, if_pos rfl]
  · have hidle : WithoutContent (Line.ofPiece piece).text := by
      rw [Line.isCode_iff, not_not] at hcode
      exact hcode
    have hnew : ¬ (Line.ofPiece (extendPiece inserted piece)).IsCode := by
      rw [Line.isCode_iff, not_not, htext]
      exact hidle.append_right hinserted
    rw [Line.codeLine?_of_not_isCode hcode, Line.codeLine?_of_not_isCode hnew]
    rfl

end

-- ════════════════════════════════════════════════════════════════════════
-- The new text
-- ════════════════════════════════════════════════════════════════════════

section

variable {number : Nat} {inserted : List Char} {text : String}

theorem not_mem_extendPiece (hfeed : '\n' ∉ inserted) {piece : List Char} (h : '\n' ∉ piece) :
    '\n' ∉ extendPiece inserted piece := by
  have hkept : '\n' ∉ withoutReturn piece := fun hmem =>
    h ((text_ofPiece_isPrefix piece).subset hmem)
  rw [extendPiece, List.mem_append, List.mem_append, not_or, not_or]
  refine ⟨⟨hkept, hfeed⟩, ?_⟩
  split <;> simp

theorem extendPiece_ne_nil {piece : List Char} (h : piece ≠ []) :
    extendPiece inserted piece ≠ [] := by
  by_cases hlast : piece.getLast? = some '\r'
  · rw [extendPiece, if_pos hlast]
    exact List.concat_ne_nil _ _
  · rw [extendPiece, withoutReturn, if_neg hlast]
    simp [h]

-- What is needed to take the changed text line by line.

theorem not_mem_extendAt (hfeed : '\n' ∉ inserted) (index : Nat) (piece : List Char)
    (hpiece : (text.toList.splitOn '\n')[index]? = some piece) :
    '\n' ∉ extendAt number inserted (1 + index) piece := by
  have hold := not_mem_of_mem_splitOn (List.mem_of_getElem? hpiece)
  rw [extendAt]
  split
  · exact not_mem_extendPiece hfeed hold
  · exact hold

/-- The text behind the last line feed is none of the lines if it is empty, and stays so. -/
theorem extendAt_last_eq_nil_iff (hnumber : number ≤ (Line.split text.toList).length)
    (front : List (List Char)) (last : List Char)
    (hsplit : text.toList.splitOn '\n' = front ++ [last]) :
    extendAt number inserted (1 + front.length) last = [] ↔ last = [] := by
  rw [extendAt]
  split
  · next hfound =>
    have hsome : last ≠ [] := by
      intro hnil
      rw [Line.split, List.length_map, splitAtNewlines_of_splitOn_eq hsplit, if_pos hnil] at hnumber
      omega
    exact iff_of_false (extendPiece_ne_nil hsome) hsome
  · exact Iff.rfl

theorem codeLine?_extendAt (hinserted : WithoutContent inserted) (hreturn : '\r' ∉ inserted)
    (found : Nat) (piece : List Char) :
    (Line.ofPiece (extendAt number inserted found piece)).codeLine? found =
      ((Line.ofPiece piece).codeLine? found).map (CodeLine.extend number inserted) := by
  by_cases hfound : found = number
  · rw [extendAt, if_pos hfound, hfound]
    exact codeLine?_extendPiece hreturn hinserted number
  · rw [extendAt, if_neg hfound, Line.codeLine?]
    split
    · rw [Option.map_some, CodeLine.extend, if_neg hfound]
    · rfl

variable (hnumber : number ≤ (Line.split text.toList).length) (hinserted : WithoutContent inserted)
  (hfeed : '\n' ∉ inserted) (hreturn : '\r' ∉ inserted)

include hnumber hfeed in
theorem length_split_insertBehind :
    (Line.split (insertBehind number inserted text).toList).length =
      (Line.split text.toList).length := by
  rw [insertBehind, String.toList_ofList]
  exact length_split_mapNumbered (not_mem_extendAt hfeed) (extendAt_last_eq_nil_iff hnumber)

include hnumber hinserted hfeed hreturn

theorem codeLines_insertBehind :
    codeLines (insertBehind number inserted text) =
      (codeLines text).map (CodeLine.extend number inserted) :=
  codeLines_mapNumbered (not_mem_extendAt hfeed) (extendAt_last_eq_nil_iff hnumber)
    fun index piece _ => codeLine?_extendAt hinserted hreturn (1 + index) piece

end

-- ════════════════════════════════════════════════════════════════════════
-- What is handed out
-- ════════════════════════════════════════════════════════════════════════

section

variable {number count : Nat} {inserted : List Char} {file : Option String} {line : CodeLine}

theorem moveEnd_of_ne {token : Token} (h : token.kind ≠ .layout .newline ∨ token.line ≠ number) :
    token.moveEnd number count = token :=
  if_neg (not_and_or.2 h)

theorem map_moveEnd_of_ne {tokens : List Token}
    (h : ∀ token ∈ tokens, token.kind ≠ .layout .newline ∨ token.line ≠ number) :
    tokens.map (Token.moveEnd number count) = tokens :=
  (List.map_congr_left fun token hmem => moveEnd_of_ne (h token hmem)).trans (List.map_id tokens)

theorem kind_ne_of_mem_lexemes {origin : Origin} {token : Token}
    (h : token ∈ line.content.lexemes.map (·.token origin)) : token.kind ≠ .layout .newline := by
  have hkind := isStructural_of_mem_lexemes h
  intro heq
  rw [Token.isStructural, heq] at hkind
  cases hkind

theorem content_extend (number : Nat) (hinserted : WithoutContent inserted) (line : CodeLine) :
    (line.extend number inserted).content = line.content := by
  rw [CodeLine.extend]
  split
  · exact Content.read_append hinserted _ line.body
  · rfl

theorem contentTokens_extend (hinserted : WithoutContent inserted) (line : CodeLine) :
    (line.extend number inserted).contentTokens file =
      (line.contentTokens file).map (Token.moveEnd number inserted.length) := by
  by_cases hfound : line.number = number
  · have hcontent := content_extend number hinserted line
    have hlexemes : (line.content.lexemes.map (·.token (line.origin file))).map
        (Token.moveEnd number inserted.length) =
          line.content.lexemes.map (·.token (line.origin file)) :=
      map_moveEnd_of_ne fun token hmem => .inl (kind_ne_of_mem_lexemes hmem)
    rw [CodeLine.extend, if_pos hfound] at hcontent ⊢
    cases hfault : line.content.fault with
    | some fault =>
      rw [contentTokens_of_fault hfault, contentTokens_of_fault (by rw [hcontent, hfault]),
        hcontent, hlexemes]
      rfl
    | none =>
      have hend : ((line.origin file).mark .newline (line.width + line.body.length + 1)).moveEnd
          number inserted.length = (line.origin file).mark .newline
            (line.width + (line.body.length + inserted.length) + 1) := by
        rw [Token.moveEnd, if_pos ⟨rfl, congrArg Int.ofNat hfound⟩, ← Nat.add_assoc,
          Nat.add_right_comm _ inserted.length]
        rfl
      rw [contentTokens_of_finished hfault, contentTokens_of_finished (by rw [hcontent, hfault]),
        hcontent, List.map_append, hlexemes, List.map_singleton, hend, List.length_append]
      rfl
  · rw [CodeLine.extend, if_neg hfound]
    refine (map_moveEnd_of_ne fun token hmem => .inr ?_).symm
    rw [line_contentTokens hmem]
    exact fun heq => hfound (Int.ofNat.inj heq)

theorem number_extend (line : CodeLine) : (line.extend number inserted).number = line.number := by
  rw [CodeLine.extend]
  split <;> rfl

theorem indent_extend (line : CodeLine) : (line.extend number inserted).indent = line.indent := by
  rw [CodeLine.extend]
  split <;> rfl

theorem follows_extend (hinserted : WithoutContent inserted) (line : CodeLine) :
    CodeLine.Follows (Token.moveEnd number inserted.length) id file line
      (line.extend number inserted) where
  marks_eq := by
    intro shift
    rw [CodeLine.origin, number_extend]
    refine (map_moveEnd_of_ne fun token hmem => .inl ?_).symm
    obtain rfl | rfl := eq_mark_of_mem_marks hmem <;> simp [Origin.mark]
  contentTokens_eq := contentTokens_extend hinserted line
  fault?_eq := by
    rw [CodeLine.fault?_eq, CodeLine.fault?_eq, content_extend number hinserted, CodeLine.origin,
      number_extend, Option.map_id]
    rfl

/-- Blanks, and perhaps a comment behind them, can be put behind any line of a text, in front of
    its ending. Nothing is handed out but what was handed out before, and only the token for the
    end of that line, if there is one, moves by as many columns as there are new characters. -/
theorem stream_insertBehind {text : String} {options : Options}
    (hnumber : number ≤ (Line.split text.toList).length) (hinserted : WithoutContent inserted)
    (hfeed : '\n' ∉ inserted) (hreturn : '\r' ∉ inserted) :
    (Lexer.ofText (insertBehind number inserted text) file options).run.stream =
      (Lexer.ofText text file options).run.stream.change
        (Token.moveEnd number inserted.length) id := by
  have hlines : ∀ line ∈ codeLines text, ∀ blocks blocks' : OpenBlocks, blocks' = blocks →
      Passage.Follows (Token.moveEnd number inserted.length) id
        (fun blocks blocks' => blocks' = blocks) (line.pass options.isStrict file blocks)
        ((line.extend number inserted).pass options.isStrict file blocks') := by
    rintro line - _ blocks rfl
    cases hresolve : blocks.resolve options.isStrict line.indent with
    | error problem =>
      refine CodeLine.follows_pass_of_error hresolve ((indent_extend line).symm ▸ hresolve) ?_
      rw [CodeLine.origin, number_extend]
      rfl
    | ok result =>
      obtain ⟨next, shift⟩ := result
      exact (follows_extend hinserted line).pass_of_ok hresolve
        ((indent_extend line).symm ▸ hresolve) rfl
  rw [stream_ofText, stream_ofText, codeLines_insertBehind hnumber hinserted hfeed hreturn,
    length_split_insertBehind hnumber hfeed]
  refine (follows_passAll hlines rfl).close ?_
  rintro _ blocks rfl
  refine (map_moveEnd_of_ne fun token hmem => .inl ?_).symm
  obtain rfl | rfl := eq_mark_of_mem_closingTokens hmem <;> simp [Origin.mark]

/-- A comment is put directly behind a number that ends the line, in front of a carriage return. The
    number does not become longer, and only the end of its line moves. -/
theorem stream_insertBehind_comment :
    2 ≤ (Line.split "x=\n  -1\r\n y".toList).length ∧ WithoutContent "#.5".toList ∧
      '\n' ∉ "#.5".toList ∧ '\r' ∉ "#.5".toList ∧
      insertBehind 2 "#.5".toList "x=\n  -1\r\n y" = "x=\n  -1#.5\r\n y" ∧
      (Lexer.ofText "x=\n  -1#.5\r\n y").run.stream =
        (Lexer.ofText "x=\n  -1\r\n y").run.stream.change (Token.moveEnd 2 3) id ∧
      (Lexer.ofText "x=\n  -1#.5\r\n y").run.tokens.map (fun token => (token.value, token.column)) =
        [("x", 1), ("=", 2), ("", 3), ("", 1), ("-1", 3), ("", 8)] := by
  have hnumber : 2 ≤ (Line.split "x=\n  -1\r\n y".toList).length := by decide +kernel
  have hinserted : WithoutContent "#.5".toList := ⟨[], _, rfl, by simp [AllBlank], .inr rfl⟩
  have htext : insertBehind 2 "#.5".toList "x=\n  -1\r\n y" = "x=\n  -1#.5\r\n y" := by
    decide +kernel
  have hstream := @stream_insertBehind 2 "#.5".toList none "x=\n  -1\r\n y" {} hnumber hinserted
    (by decide) (by decide)
  rw [htext] at hstream
  exact ⟨hnumber, hinserted, by decide, by decide, htext, hstream, by decide +kernel⟩

end

end Offside
