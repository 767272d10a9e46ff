import Mathlib.Data.List.Basic
import Mathlib.Data.List.TakeWhile
import Offside.Line

/-!
# Changing the lines of a text

A text can be changed line by line: it is cut at its line feeds, the pieces are changed, and
they are joined again. As long as no piece gains a line feed, or becomes empty or stops being
empty, the new text is read as the changed pieces of the old one.
-/

namespace Offside

/-- A text with each of its lines changed; the line feeds stay. -/
def mapLines (f : List Char → List Char) (text : List Char) : List Char :=
  ['\n'].intercalate ((text.splitOn '\n').map f)

/-- A piece of a text with other blanks in front of its content. A piece without content stays
    as it is. -/
def reindentPiece (indent piece : List Char) : List Char :=
  if (Line.ofPiece piece).IsCode then indent ++ piece.drop (Line.ofPiece piece).indent.length
  else piece

theorem not_mem_of_mem_splitOn {text piece : List Char} (h : piece ∈ text.splitOn '\n') :
    '\n' ∉ piece := by
  induction text generalizing piece with
  | nil =>
    rw [List.splitOn_nil, List.mem_singleton] at h
    rw [h]
    exact List.not_mem_nil
  | cons c rest ih =>
    rw [List.splitOn_cons_eq_if_modifyHead] at h
    by_cases hc : c = '\n'
    · rw [if_pos (beq_iff_eq.2 hc), List.mem_cons] at h
      obtain rfl | h := h
      · exact List.not_mem_nil
      · exact ih h
    · rw [if_neg (mt beq_iff_eq.1 hc)] at h
      cases hrest : rest.splitOn '\n' with
      | nil => exact absurd hrest (List.splitOn_ne_nil _ _)
      | cons head pieces =>
        rw [hrest, List.modifyHead_cons, List.mem_cons] at h
        obtain rfl | h := h
        · rw [List.mem_cons, not_or]
          exact ⟨fun heq => hc heq.symm, ih (hrest ▸ List.mem_cons_self)⟩
        · exact ih (hrest ▸ List.mem_cons_of_mem _ h)

/-- The pieces of a text are those between its line feeds, without the last if it is empty. -/
theorem splitAtNewlines_eq_splitOn (text : List Char) :
    splitAtNewlines text =
      if (text.splitOn '\n').getLast? = some [] then (text.splitOn '\n').dropLast
      else text.splitOn '\n' := by
  induction text with
  | nil => rfl
  | cons c rest ih =>
    cases hrest : rest.splitOn '\n' with
    | nil => exact absurd hrest (List.splitOn_ne_nil _ _)
    | cons head pieces =>
      rw [splitAtNewlines, ih, List.splitOn_cons_eq_if_modifyHead, hrest]
      by_cases hc : c = '\n'
      · rw [if_pos hc, if_pos (beq_iff_eq.2 hc), List.getLast?_cons_cons, List.dropLast_cons_cons]
        split <;> rfl
      · rw [if_neg hc, if_neg (mt beq_iff_eq.1 hc), List.modifyHead_cons]
        -- Only in a text without further line feed does the first piece come last.
        cases pieces with
        | nil => cases head <;> rfl
        | cons next others =>
          rw [List.getLast?_cons_cons, List.getLast?_cons_cons, List.dropLast_cons_cons,
            List.dropLast_cons_cons]
          by_cases hlast : (next :: others).getLast? = some []
          · simp only [if_pos hlast]
          · simp only [if_neg hlast]

/-- The pieces of a text that was joined from lines are these lines, but the last one is left out
    if it is empty. -/
theorem splitAtNewlines_intercalate {front : List (List Char)} {last : List Char}
    (hline : ∀ piece ∈ front ++ [last], '\n' ∉ piece) :
    splitAtNewlines (['\n'].intercalate (front ++ [last])) =
      if last = [] then front else front ++ [last] := by
  rw [splitAtNewlines_eq_splitOn, List.splitOn_intercalate '\n' hline (List.concat_ne_nil _ _),
    List.getLast?_concat, List.dropLast_concat]
  simp only [Option.some_inj]

theorem splitAtNewlines_of_splitOn_eq {text last : List Char} {front : List (List Char)}
    (h : text.splitOn '\n' = front ++ [last]) :
    splitAtNewlines text = if last = [] then front else front ++ [last] := by
  have hjoin : ['\n'].intercalate (text.splitOn '\n') = text := List.intercalate_splitOn '\n'
  rw [← hjoin, h]
  exact splitAtNewlines_intercalate fun piece hmem => not_mem_of_mem_splitOn (h ▸ hmem)

theorem text_ofPiece_isPrefix (piece : List Char) : (Line.ofPiece piece).text <+: piece := by
  rw [Line.ofPiece]
  split
  · exact List.dropLast_prefix piece
  · exact List.prefix_refl piece

section

variable {front back : List Char}

-- A line of blanks and something else has those blanks in front, whatever they are.

theorem text_ofPiece_append (front : List Char) (h : back ≠ []) :
    (Line.ofPiece (front ++ back)).text = front ++ (Line.ofPiece back).text := by
  have hlast : (front ++ back).getLast? = back.getLast? := List.getLast?_append_of_ne_nil _ h
  simp only [Line.ofPiece, hlast, List.dropLast_append_of_ne_nil h]
  split <;> rfl

theorem indent_ofPiece_append (hfront : ∀ c ∈ front, isBlank c = true) (h : back ≠ []) :
    (Line.ofPiece (front ++ back)).indent = front ++ (Line.ofPiece back).indent := by
  rw [Line.indent, text_ofPiece_append front h]
  exact List.takeWhile_append_of_pos hfront

theorem body_ofPiece_append (hfront : ∀ c ∈ front, isBlank c = true) (h : back ≠ []) :
    (Line.ofPiece (front ++ back)).body = (Line.ofPiece back).body := by
  rw [Line.body, text_ofPiece_append front h]
  exact List.dropWhile_append_of_pos hfront

end

theorem isBlank_indent (line : Line) : ∀ c ∈ line.indent, isBlank c = true :=
  fun _ hmem => List.mem_takeWhile_imp hmem

section

variable {indent piece : List Char}

theorem reindentPiece_of_not_isCode (h : ¬ (Line.ofPiece piece).IsCode) :
    reindentPiece indent piece = piece :=
  if_neg h

/-- A piece with content is its indentation and something more, and only the indentation is
    changed. -/
theorem exists_reindentPiece_eq (indent : List Char) (h : (Line.ofPiece piece).IsCode) :
    ∃ back, back ≠ [] ∧ piece = (Line.ofPiece piece).indent ++ back ∧
      reindentPiece indent piece = indent ++ back := by
  obtain ⟨rest, hrest⟩ := text_ofPiece_isPrefix piece
  have hpiece : piece = (Line.ofPiece piece).indent ++ ((Line.ofPiece piece).body ++ rest) := by
    rw [← List.append_assoc, Line.indent_append_body, hrest]
  refine ⟨(Line.ofPiece piece).body ++ rest, ?_, hpiece, ?_⟩
  · intro hnil
    obtain ⟨c, hhead, -⟩ := h
    rw [(List.append_eq_nil_iff.1 hnil).1] at hhead
    cases hhead
  · have hdrop := (congrArg (List.drop (Line.ofPiece piece).indent.length) hpiece).trans
      List.drop_left
    rw [reindentPiece, if_pos h, hdrop]

/-- The line of a changed piece has the new indentation and the old content. -/
theorem ofPiece_reindentPiece (hindent : ∀ c ∈ indent, isBlank c = true)
    (h : (Line.ofPiece piece).IsCode) :
    (Line.ofPiece (reindentPiece indent piece)).indent = indent ∧
      (Line.ofPiece (reindentPiece indent piece)).body = (Line.ofPiece piece).body := by
  obtain ⟨back, hback, hpiece, hnew⟩ := exists_reindentPiece_eq indent h
  have hblank := isBlank_indent (Line.ofPiece piece)
  have hold := indent_ofPiece_append hblank hback
  have hbody := body_ofPiece_append hblank hback
  rw [← hpiece] at hold hbody
  rw [hnew, indent_ofPiece_append hindent hback, body_ofPiece_append hindent hback, hbody,
    List.self_eq_append_right.1 hold, List.append_nil]
  exact ⟨rfl, rfl⟩

theorem isCode_reindentPiece (hindent : ∀ c ∈ indent, isBlank c = true)
    (h : (Line.ofPiece piece).IsCode) : (Line.ofPiece (reindentPiece indent piece)).IsCode := by
  rw [Line.IsCode, (ofPiece_reindentPiece hindent h).2]
  exact h

theorem not_mem_reindentPiece
    (hindent : (Line.ofPiece piece).IsCode → ∀ c ∈ indent, isBlank c = true)
    (h : '\n' ∉ piece) : '\n' ∉ reindentPiece indent piece := by
  by_cases hcode : (Line.ofPiece piece).IsCode
  · obtain ⟨back, -, hpiece, hnew⟩ := exists_reindentPiece_eq indent hcode
    rw [hnew, List.mem_append, not_or]
    refine ⟨?_, ?_⟩
    · intro hmem
      exact absurd (hindent hcode _ hmem) (by decide)
    · intro hmem
      rw [hpiece] at h
      exact h (List.mem_append_right _ hmem)
  · rwa [reindentPiece_of_not_isCode hcode]

theorem reindentPiece_eq_nil_iff : reindentPiece indent piece = [] ↔ piece = [] := by
  by_cases hcode : (Line.ofPiece piece).IsCode
  · obtain ⟨back, hback, hpiece, hnew⟩ := exists_reindentPiece_eq indent hcode
    rw [hnew, hpiece]
    simp [hback]
  · rw [reindentPiece_of_not_isCode hcode]

end

end Offside
