import Offside.Proofs.Reading.Passage
import Offside.Proofs.Text.Boundary
import Offside.Proofs.Text.NumberedLines

/-!
# Line endings

A line may end with a line feed, with or without a carriage return in front of it, and the last
line need not end at all. How the lines of a text end makes no difference to what is read: tokens
and diagnostics depend on what stands on the lines.
-/

namespace Offside

/-- The ways for a line to end that has another one behind it. -/
inductive LineEnding : List Char → Prop where
  | feed : LineEnding ['\n']
  | returnFeed : LineEnding ['\r', '\n']

/-- What may stand on the lines of a text: no line feed, and at the end of a line no carriage
    return. -/
def Contents (contents : List (List Char)) : Prop :=
  ∀ content ∈ contents, '\n' ∉ content ∧ content.getLast? ≠ some '\r'

/-- A text with the given contents of lines. Every line ends in one of the two ways; the last one
    need not end if there is something on it. -/
inductive Spells : List (List Char) → List Char → Prop where
  | nil : Spells [] []
  | unended {content : List Char} (hsome : content ≠ []) : Spells [content] content
  | line (content : List Char) {ending : List Char} (hending : LineEnding ending)
      {contents : List (List Char)} {text : List Char} (hrest : Spells contents text) :
      Spells (content :: contents) (content ++ ending ++ text)

theorem text_ofPiece_of_getLast?_ne {content : List Char} (h : content.getLast? ≠ some '\r') :
    (Line.ofPiece content).text = content :=
  if_neg h

theorem text_ofPiece_concat_return (content : List Char) :
    (Line.ofPiece (content ++ ['\r'])).text = content := by
  simp [Line.ofPiece]

/-- The code lines among some lines depend on their texts alone, and not on how far apart they
    stand. -/
theorem codeLinesFrom_eq_of_map_text {lines lines' : List Line}
    (h : lines.map Line.text = lines'.map Line.text) (first : Nat) :
    codeLinesFrom first lines = codeLinesFrom first lines' := by
  induction lines generalizing lines' first with
  | nil => rw [List.map_eq_nil_iff.1 h.symm]
  | cons line rest ih =>
    obtain ⟨line', rest', rfl, htext, hrest⟩ := List.map_eq_cons_iff.1 h.symm
    have hline : line.codeLine? first = line'.codeLine? first := by
      obtain ⟨text, extent⟩ := line
      obtain ⟨text', extent'⟩ := line'
      obtain rfl : text' = text := htext
      rfl
    rw [codeLinesFrom_cons, codeLinesFrom_cons, hline, ih hrest.symm]

namespace Spells

variable {contents : List (List Char)} {text : List Char}

/-- The first line of a text is what stands in front of its ending. -/
theorem map_text_split_line {content ending : List Char} (hending : LineEnding ending)
    (hfeed : '\n' ∉ content) (hreturn : content.getLast? ≠ some '\r') :
    (Line.split (content ++ ending ++ text)).map Line.text =
      content :: (Line.split text).map Line.text := by
  cases hending with
  | feed =>
    rw [List.append_assoc, List.singleton_append, Line.split, splitAtNewlines_line hfeed,
      List.map_cons, List.map_cons, text_ofPiece_of_getLast?_ne hreturn]
    rfl
  | returnFeed =>
    have hline : content ++ ['\r', '\n'] ++ text = (content ++ ['\r']) ++ '\n' :: text := by
      simp
    have hfeed' : '\n' ∉ content ++ ['\r'] := by
      simp [hfeed]
    rw [hline, Line.split, splitAtNewlines_line hfeed', List.map_cons, List.map_cons,
      text_ofPiece_concat_return]
    rfl

/-- The lines of a text have the contents that it spells. -/
theorem map_text_split (hcontents : Contents contents) (h : Spells contents text) :
    (Line.split text).map Line.text = contents := by
  induction h with
  | nil => rfl
  | @unended content hsome =>
    obtain ⟨hfeed, hreturn⟩ := hcontents content List.mem_cons_self
    rw [Line.split, splitAtNewlines_of_not_mem hfeed, if_neg (by simpa using hsome), List.map_cons,
      List.map_cons, text_ofPiece_of_getLast?_ne hreturn]
    rfl
  | line content hending hrest ih =>
    obtain ⟨⟨hfeed, hreturn⟩, hother⟩ := List.forall_mem_cons.1 hcontents
    rw [map_text_split_line hending hfeed hreturn, ih hother]

/-- Two texts that spell the same contents, each with line endings of its own, are read alike: to
    the same tokens in the same places, and to the same diagnostic if they fail. -/
theorem stream_eq {text text' : String} (hcontents : Contents contents)
    (h : Spells contents text.toList) (h' : Spells contents text'.toList) (file : Option String)
    (options : Options) :
    (Lexer.ofText text file options).run.stream = (Lexer.ofText text' file options).run.stream := by
  have htexts := h.map_text_split hcontents
  have hsame : (Line.split text.toList).map Line.text =
      (Line.split text'.toList).map Line.text := by
    rw [htexts, h'.map_text_split hcontents]
  have hlength : (Line.split text.toList).length = (Line.split text'.toList).length := by
    simpa using congrArg List.length hsame
  rw [stream_ofText, stream_ofText, codeLines, codeLines, codeLinesFrom_eq_of_map_text hsame 1,
    hlength]

/-- With its lines ended in other ways a text with an open block, a comment and a fault is read as
    before. -/
theorem stream_eq_mixed :
    Contents ["a".toList, "  b # c".toList, [], "  !".toList] ∧
      Spells ["a".toList, "  b # c".toList, [], "  !".toList] "a\r\n  b # c\n\r\n  !".toList ∧
      Spells ["a".toList, "  b # c".toList, [], "  !".toList] "a\n  b # c\r\n\n  !\r\n".toList ∧
      (Lexer.ofText "a\r\n  b # c\n\r\n  !").run.stream =
        (Lexer.ofText "a\n  b # c\r\n\n  !\r\n").run.stream := by
  have hcontents : Contents ["a".toList, "  b # c".toList, [], "  !".toList] := by
    simp [Contents]
  have hspells : Spells ["a".toList, "  b # c".toList, [], "  !".toList]
      "a\r\n  b # c\n\r\n  !".toList :=
    .line _ .returnFeed (.line _ .feed (.line _ .returnFeed (.unended (by simp))))
  have hspells' : Spells ["a".toList, "  b # c".toList, [], "  !".toList]
      "a\n  b # c\r\n\n  !\r\n".toList :=
    .line _ .feed (.line _ .returnFeed (.line _ .feed (.line _ .returnFeed .nil)))
  exact ⟨hcontents, hspells, hspells', stream_eq hcontents hspells hspells' none {}⟩

end Spells

end Offside
