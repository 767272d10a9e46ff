import Mathlib.Data.List.TakeWhile
import Offside.Proofs.Reading.MovedLines
import Offside.Proofs.Text.Boundary
import Offside.Proofs.Text.PhysicalLines

/-!
# Idle lines

A line of blanks, or one with nothing but a comment behind its blanks, can be put between any
two lines of a text. However wide its blanks are, they open and close nothing and disagree with
nothing. The lines from there on move down by one, and that is all.
-/

namespace Offside

/-- What can be written as a line without being read: blanks, and behind them nothing or a
    comment. One carriage return may stand at the end. -/
def Idle (line : List Char) : Prop :=
  '\n' ∉ line ∧ ∃ text, WithoutContent text ∧ (line = text ∨ line = text ++ ['\r'])

theorem WithoutContent.of_isPrefix {short text : List Char} (h : WithoutContent text)
    (hshort : short <+: text) : WithoutContent short := by
  obtain ⟨more, rfl⟩ := hshort
  rw [withoutContent_iff] at h ⊢
  intro c hc
  obtain ⟨rest, hbody⟩ := List.head?_eq_some_iff.1 hc
  apply h c
  rw [List.dropWhile_append, hbody]
  rfl

theorem Idle.not_isCode {line : List Char} (h : Idle line) : ¬ (Line.ofPiece line).IsCode := by
  obtain ⟨-, text, htext, rfl | rfl⟩ := h
  · exact fun hcode => Line.isCode_iff.1 hcode (htext.of_isPrefix (text_ofPiece_isPrefix _))
  · have hdropped : (Line.ofPiece (text ++ ['\r'])).text = text := by
      simp [Line.ofPiece]
    rw [Line.isCode_iff, hdropped, not_not]
    exact htext

section

variable {front idle back : String} (hfront : EndsLine front.toList) (hidle : Idle idle.toList)
include hfront hidle

theorem split_insert_idle :
    Line.split (front ++ idle ++ "\n" ++ back).toList =
      Line.split front.toList ++ Line.ofPiece idle.toList :: Line.split back.toList := by
  have htext : (front ++ idle ++ "\n" ++ back).toList =
      front.toList ++ (idle.toList ++ '\n' :: back.toList) := by
    simp [String.toList_append]
  rw [htext, split_append hfront, Line.split, Line.split, splitAtNewlines_line hidle.1]
  rfl

/-- Of the code lines those behind the idle line move down, and the idle line is none of them. -/
theorem codeLines_insert_idle :
    codeLines (front ++ idle ++ "\n" ++ back) =
      (codeLines (front ++ back)).map (CodeLine.moveDown (1 + lineFeeds front.toList) 1) := by
  have hlength := length_split_of_endsLine hfront
  have hkept : (codeLines front).map (CodeLine.moveDown (1 + lineFeeds front.toList) 1) =
      codeLines front := by
    refine (List.map_congr_left ?_).trans (List.map_id _)
    intro line hline
    apply moveDown_of_lt
    have hbound := (number_mem_codeLinesFrom hline).2
    rwa [hlength] at hbound
  rw [codeLines_append hfront, List.map_append, hkept, codeLines, split_insert_idle hfront hidle,
    codeLinesFrom_append, codeLinesFrom, if_neg hidle.not_isCode, hlength,
    codeLinesFrom_add _ _ (Nat.le_refl _)]
  rfl

/-- A text with an idle line put into it is read as the text without it, but for the numbers of
    the lines from there on, which are greater by one: those of the tokens, of the end of the text
    among them, and that of the diagnostic if the reading fails. -/
theorem stream_insert_idle (file : Option String) (options : Options) :
    (Lexer.ofText (front ++ idle ++ "\n" ++ back) file options).run.stream =
      (Lexer.ofText (front ++ back) file options).run.stream.moveDown
        (1 + lineFeeds front.toList) 1 := by
  have hlength := length_split_of_endsLine hfront
  have hend : (⟨1 + (Line.split (front ++ idle ++ "\n" ++ back).toList).length, file⟩ : Origin) =
      Origin.moveDown (1 + lineFeeds front.toList) 1
        ⟨1 + (Line.split (front ++ back).toList).length, file⟩ := by
    have hle : 1 + lineFeeds front.toList ≤ 1 + (Line.split (front ++ back).toList).length := by
      rw [String.toList_append, split_append hfront, List.length_append]
      omega
    rw [Origin.moveDown, movedNumber_of_le hle, split_insert_idle hfront hidle,
      String.toList_append, split_append hfront, List.length_append, List.length_append,
      List.length_cons]
    rfl
  rw [stream_ofText, stream_ofText, codeLines_insert_idle hfront hidle, passAll_moveDown, hend,
    close_moveDown]

end

/-- A comment that stands deeper than the line in front of it opens no block, and the fault behind
    it is reported one line further down. -/
theorem stream_insert_idle_comment :
    EndsLine "a\n".toList ∧ Idle "\t\t# c\r".toList ∧
      (Lexer.ofText "a\n\t\t# c\r\n  b ?\n").run.stream =
        (Lexer.ofText "a\n  b ?\n").run.stream.moveDown 2 1 ∧
      (Lexer.ofText "a\n\t\t# c\r\n  b ?\n").run.ending =
        .failed ⟨.unrecognized "?", some 3, some 5, none⟩ := by
  have hfront : EndsLine "a\n".toList := by decide +kernel
  have hcomment : WithoutContent "\t\t# c".toList :=
    ⟨['\t', '\t'], "# c".toList, rfl, by simp [AllBlank, isBlank], .inr rfl⟩
  have hidle : Idle "\t\t# c\r".toList := ⟨by decide +kernel, _, hcomment, .inr rfl⟩
  have hmoved := @stream_insert_idle "a\n" "\t\t# c\r" "  b ?\n" hfront hidle none {}
  exact ⟨hfront, hidle, hmoved, by decide +kernel⟩

end Offside
