import Mathlib.Data.List.TakeWhile
import Offside.Proofs.Content.Cover
import Offside.Proofs.Reading.CodeLine
import Offside.Proofs.Text.Pieces

/-!
# Physical lines

The physical lines of a text are what stands between its line feeds, each without one carriage
return at its end. They can be counted off without reading the text, and the code lines are
those of them that have content.
-/

namespace Offside

/-- A piece of a text without a carriage return at its end. -/
def withoutReturn (piece : List Char) : List Char :=
  if piece.getLast? = some '\r' then piece.dropLast else piece

/-- The lines of a text as they stand between its line feeds. Behind the last line feed there is
    one more line, which may be empty. -/
def physicalLines (text : String) : List (List Char) :=
  (text.toList.splitOn '\n').map withoutReturn

/-- A physical line as a code line. Lines are counted from one. -/
def codeLineAt (index : Nat) (chars : List Char) : CodeLine :=
  ⟨index + 1, chars.takeWhile isBlank, chars.dropWhile isBlank⟩

theorem allBlank_indent_codeLineAt (index : Nat) (chars : List Char) :
    AllBlank (codeLineAt index chars).indent :=
  fun _ hmem => List.mem_takeWhile_imp hmem

theorem codeLineAt_indent_append_body (index : Nat) (chars : List Char) :
    (codeLineAt index chars).indent ++ (codeLineAt index chars).body = chars :=
  List.takeWhile_append_dropWhile

theorem withoutContent_iff {text : List Char} :
    WithoutContent text ↔ ∀ c ∈ (text.dropWhile isBlank).head?, c = '#' := by
  constructor
  · rintro ⟨gap, comment, rfl, hgap, hcomment⟩
    rw [List.dropWhile_append_of_pos hgap]
    rcases hcomment with rfl | hcomment
    · simp
    · obtain ⟨rest, rfl⟩ := List.head?_eq_some_iff.1 hcomment
      have hstop : isBlank '#' = false := by decide
      simp [hstop]
  · intro h
    refine ⟨text.takeWhile isBlank, text.dropWhile isBlank,
      List.takeWhile_append_dropWhile.symm, fun _ hmem => List.mem_takeWhile_imp hmem, ?_⟩
    cases hbody : text.dropWhile isBlank with
    | nil => exact .inl rfl
    | cons c rest =>
      rw [hbody] at h
      exact .inr (congrArg some (h c rfl))

theorem Line.isCode_iff {line : Line} : line.IsCode ↔ ¬ WithoutContent line.text := by
  rw [withoutContent_iff, Line.IsCode, Line.body]
  simp only [not_forall, commentMark, exists_prop]

theorem mem_codeLinesFrom_cons {first : Nat} {head : Line} {rest : List Line} {line : CodeLine} :
    line ∈ codeLinesFrom first (head :: rest) ↔
      head.IsCode ∧ line = ⟨first, head.indent, head.body⟩ ∨
        line ∈ codeLinesFrom (first + 1) rest := by
  rw [codeLinesFrom]
  split
  · next hcode => simp [hcode]
  · next hcode => simp [hcode]

theorem mem_codeLinesFrom_iff {first : Nat} {lines : List Line} {line : CodeLine} :
    line ∈ codeLinesFrom first lines ↔ ∃ index found, lines[index]? = some found ∧
      found.IsCode ∧ line = ⟨first + index, found.indent, found.body⟩ := by
  induction lines generalizing first with
  | nil => simp [codeLinesFrom]
  | cons head rest ih =>
    rw [mem_codeLinesFrom_cons, ih]
    constructor
    · rintro (⟨hcode, rfl⟩ | ⟨index, found, hfound, hcode, rfl⟩)
      · exact ⟨0, head, rfl, hcode, rfl⟩
      · exact ⟨index + 1, found, hfound, hcode, by rw [Nat.add_assoc, Nat.add_comm 1]⟩
    · rintro ⟨index, found, hfound, hcode, rfl⟩
      cases index with
      | zero =>
        cases hfound
        exact .inl ⟨hcode, rfl⟩
      | succ index =>
        exact .inr ⟨index, found, hfound, hcode, by rw [Nat.add_assoc, Nat.add_comm 1]⟩

/-- The lines that are read are the physical lines, but for an empty one at the end. -/
theorem physicalLines_eq (text : String) : ∃ last : List (List Char),
    physicalLines text = (Line.split text.toList).map Line.text ++ last ∧
      ∀ chars ∈ last, chars = [] := by
  have hpieces : (Line.split text.toList).map Line.text =
      (splitAtNewlines text.toList).map withoutReturn := by
    rw [Line.split, List.map_map]
    rfl
  rw [hpieces, splitAtNewlines_eq_splitOn, physicalLines]
  by_cases hlast : (text.toList.splitOn '\n').getLast? = some []
  · obtain ⟨front, hfront⟩ := List.getLast?_eq_some_iff.1 hlast
    refine ⟨[[]], ?_, by simp⟩
    rw [if_pos hlast, hfront, List.dropLast_concat, List.map_append]
    rfl
  · exact ⟨[], by rw [if_neg hlast, List.append_nil], by simp⟩

/-- The code lines of a text are its physical lines with content, each with its number. -/
theorem mem_codeLines_iff {text : String} {line : CodeLine} :
    line ∈ codeLines text ↔ ∃ index chars, (physicalLines text)[index]? = some chars ∧
      ¬ WithoutContent chars ∧ line = codeLineAt index chars := by
  obtain ⟨last, hlines, hlast⟩ := physicalLines_eq text
  rw [codeLines, mem_codeLinesFrom_iff, hlines]
  constructor
  · rintro ⟨index, found, hfound, hcode, rfl⟩
    refine ⟨index, found.text, ?_, Line.isCode_iff.1 hcode, by rw [Nat.add_comm, codeLineAt]; rfl⟩
    obtain ⟨hlt, -⟩ := List.getElem?_eq_some_iff.1 hfound
    rw [List.getElem?_append_left (by rwa [List.length_map]), List.getElem?_map, hfound]
    rfl
  · rintro ⟨index, chars, hchars, hcode, rfl⟩
    rw [List.getElem?_append] at hchars
    split at hchars
    · rw [List.getElem?_map, Option.map_eq_some_iff] at hchars
      obtain ⟨found, hfound, rfl⟩ := hchars
      exact ⟨index, found, hfound, Line.isCode_iff.2 hcode, by rw [Nat.add_comm, codeLineAt]; rfl⟩
    · have hempty : chars = [] := hlast chars (List.mem_of_getElem? hchars)
      rw [hempty, withoutContent_iff] at hcode
      exact absurd (by simp) hcode

theorem indent_and_content_of_mem_codeLines {text : String} {line : CodeLine}
    (h : line ∈ codeLines text) :
    AllBlank line.indent ∧ ¬ WithoutContent (line.indent ++ line.body) := by
  obtain ⟨index, chars, -, hcontent, rfl⟩ := mem_codeLines_iff.1 h
  rw [codeLineAt_indent_append_body]
  exact ⟨allBlank_indent_codeLineAt index chars, hcontent⟩

end Offside
