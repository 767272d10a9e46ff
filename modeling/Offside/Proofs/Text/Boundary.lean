import Mathlib.Data.List.Basic
import Offside.Proofs.Reading.CodeLine

/-!
# Line boundaries

A text that ends with a line feed, or is empty, can be followed by any other text: the lines of
the two together are those of the first and then those of the second. The line feeds of the
first one tell how far the lines of the second one have moved.
-/

namespace Offside

/-- A text that ends where a line ends: it is empty, or its last character is a line feed. -/
def EndsLine (text : List Char) : Prop :=
  ∀ c ∈ text.getLast?, c = '\n'

instance : DecidablePred EndsLine :=
  fun text => Option.decidableForallMem text.getLast?

def lineFeeds (text : List Char) : Nat :=
  text.count '\n'

/-- The number of lines of a text. What is behind the last line feed counts if it is not empty. -/
def lineCount (text : List Char) : Nat :=
  lineFeeds text + if EndsLine text then 0 else 1

theorem EndsLine.eq_nil_or_concat {text : List Char} (h : EndsLine text) :
    text = [] ∨ ∃ front, text = front ++ ['\n'] := by
  obtain rfl | ⟨front, last, rfl⟩ := text.eq_nil_or_concat'
  · exact .inl rfl
  · obtain rfl : last = '\n' := h last List.getLast?_concat
    exact .inr ⟨front, rfl⟩

theorem EndsLine.tail {c : Char} {rest : List Char} (h : EndsLine (c :: rest)) :
    EndsLine rest := by
  cases rest with
  | nil => rintro last ⟨⟩
  | cons d rest => rwa [EndsLine, List.getLast?_cons_cons] at h

theorem splitAtNewlines_append_of_endsLine {front : List Char} (h : EndsLine front)
    (back : List Char) :
    splitAtNewlines (front ++ back) = splitAtNewlines front ++ splitAtNewlines back := by
  obtain rfl | ⟨start, rfl⟩ := h.eq_nil_or_concat
  · rfl
  · rw [List.append_assoc, List.singleton_append, splitAtNewlines_append]

/-- A line with its line feed is a piece of its own. -/
theorem splitAtNewlines_line {line : List Char} (h : '\n' ∉ line) (rest : List Char) :
    splitAtNewlines (line ++ '\n' :: rest) = line :: splitAtNewlines rest := by
  induction line with
  | nil => exact if_pos rfl
  | cons c line ih =>
    rw [List.mem_cons, not_or] at h
    rw [List.cons_append, splitAtNewlines, if_neg (Ne.symm h.1), ih h.2]

theorem splitAtNewlines_ne_nil {c : Char} {rest : List Char} :
    splitAtNewlines (c :: rest) ≠ [] := by
  rw [splitAtNewlines]
  split
  · exact List.cons_ne_nil _ _
  · split <;> exact List.cons_ne_nil _ _

/-- A text that ends where a line ends has one piece for each line feed. -/
theorem length_splitAtNewlines_of_endsLine {text : List Char} (h : EndsLine text) :
    (splitAtNewlines text).length = lineFeeds text := by
  induction text with
  | nil => rfl
  | cons c rest ih =>
    have hrest := ih h.tail
    by_cases hc : c = '\n'
    · rw [splitAtNewlines, if_pos hc, List.length_cons, hrest, lineFeeds, lineFeeds, hc,
        List.count_cons_self]
    · -- Another character lengthens the first piece, and there is one behind it.
      have hcount : lineFeeds (c :: rest) = lineFeeds rest := List.count_cons_of_ne hc
      rw [hcount, ← hrest, splitAtNewlines, if_neg hc]
      cases rest with
      | nil => exact absurd (h c rfl) hc
      | cons d tail =>
        cases hpieces : splitAtNewlines (d :: tail) with
        | nil => exact absurd hpieces splitAtNewlines_ne_nil
        | cons piece pieces => rfl

/-- A text that does not end where a line ends has one more piece, behind its last line feed. -/
theorem length_splitAtNewlines_of_not_endsLine {text : List Char} (h : ¬ EndsLine text) :
    (splitAtNewlines text).length = lineFeeds text + 1 := by
  induction text with
  | nil => exact absurd nofun h
  | cons c rest ih =>
    cases rest with
    | nil =>
      have hc : c ≠ '\n' := by
        rintro rfl
        exact h fun last hlast => (Option.some.inj hlast).symm
      have hcount : lineFeeds [c] = 0 := List.count_cons_of_ne hc
      rw [splitAtNewlines, if_neg hc, hcount]
      rfl
    | cons d tail =>
      have hrest := ih (by rwa [EndsLine, List.getLast?_cons_cons] at h)
      by_cases hc : c = '\n'
      · rw [splitAtNewlines, if_pos hc, List.length_cons, hrest, lineFeeds, lineFeeds, hc,
          List.count_cons_self]
      · have hcount : lineFeeds (c :: d :: tail) = lineFeeds (d :: tail) :=
          List.count_cons_of_ne hc
        rw [hcount, ← hrest, splitAtNewlines, if_neg hc]
        cases hpieces : splitAtNewlines (d :: tail) with
        | nil => exact absurd hpieces splitAtNewlines_ne_nil
        | cons piece pieces => rfl

theorem length_split (text : List Char) : (Line.split text).length = lineCount text := by
  rw [Line.split, List.length_map, lineCount]
  by_cases hends : EndsLine text
  · rw [if_pos hends, length_splitAtNewlines_of_endsLine hends, Nat.add_zero]
  · rw [if_neg hends, length_splitAtNewlines_of_not_endsLine hends]

/-- The first line of a text ends at the first line feed, or else it is the whole text. -/
theorem split_eq_cons {text : List Char} {line : Line} {rest : List Line}
    (h : Line.split text = line :: rest) :
    (∃ piece back, text = piece ++ '\n' :: back ∧ '\n' ∉ piece ∧ line = .ofPiece piece ∧
      rest = Line.split back) ∨
    (text ≠ [] ∧ '\n' ∉ text ∧ line = .ofPiece text ∧ rest = []) := by
  by_cases hfeed : '\n' ∈ text
  · obtain ⟨piece, back, rfl, hpiece⟩ := List.eq_append_cons_of_mem hfeed
    rw [Line.split, splitAtNewlines_line hpiece, List.map_cons, List.cons.injEq] at h
    obtain ⟨rfl, rfl⟩ := h
    exact .inl ⟨piece, back, rfl, hpiece, rfl, rfl⟩
  · have hne : text ≠ [] := by
      rintro rfl
      cases h
    rw [Line.split, splitAtNewlines_of_not_mem hfeed, if_neg (by simpa using hne), List.map_cons,
      List.map_nil, List.cons.injEq] at h
    exact .inr ⟨hne, hfeed, h.1.symm, h.2.symm⟩

section

variable {front : List Char} (h : EndsLine front) (back : List Char)
include h

theorem length_split_of_endsLine : (Line.split front).length = lineFeeds front := by
  rw [Line.split, List.length_map, length_splitAtNewlines_of_endsLine h]

theorem split_append : Line.split (front ++ back) = Line.split front ++ Line.split back := by
  rw [Line.split, splitAtNewlines_append_of_endsLine h, List.map_append]
  rfl

end

/-- The code lines of two texts in a row: those of the second begin behind the line feeds of the
    first. -/
theorem codeLines_append {front back : String} (h : EndsLine front.toList) :
    codeLines (front ++ back) = codeLines front ++
      codeLinesFrom (1 + lineFeeds front.toList) (Line.split back.toList) := by
  rw [codeLines, String.toList_append, split_append h, codeLinesFrom_append,
    length_split_of_endsLine h]
  rfl

end Offside
