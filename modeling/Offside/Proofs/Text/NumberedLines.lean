import Offside.Proofs.Text.PhysicalLines

/-!
# Changing numbered lines

Each line of a text can be changed in its own way, by its number. The code lines of the new text
are found by looking at one line at a time: it is enough that no line gains a line feed, that the
last one does not appear or vanish, and that it is known what becomes of a code line.
-/

namespace Offside

/-- A text with each of its lines changed, by the number of the line; the line feeds stay. Lines
    are counted from one. -/
def mapNumbered (f : Nat → List Char → List Char) (text : List Char) : List Char :=
  ['\n'].intercalate ((text.splitOn '\n').mapIdx fun index => f (1 + index))

/-- A line as a code line with the given number, if it has content. -/
def Line.codeLine? (number : Nat) (line : Line) : Option CodeLine :=
  if line.IsCode then some ⟨number, line.indent, line.body⟩ else none

theorem Line.codeLine?_of_isCode {number : Nat} {line : Line} (h : line.IsCode) :
    line.codeLine? number = some ⟨number, line.indent, line.body⟩ :=
  if_pos h

theorem Line.codeLine?_of_not_isCode {number : Nat} {line : Line} (h : ¬ line.IsCode) :
    line.codeLine? number = none :=
  if_neg h

/-- A line with other blanks in front of its content is a code line with another indentation. -/
theorem codeLine?_reindentPiece {number : Nat} {indent piece : List Char}
    (hindent : (Line.ofPiece piece).IsCode → ∀ c ∈ indent, isBlank c = true) :
    (Line.ofPiece (reindentPiece indent piece)).codeLine? number =
      ((Line.ofPiece piece).codeLine? number).map fun line => { line with indent } := by
  by_cases hcode : (Line.ofPiece piece).IsCode
  · have hblank := hindent hcode
    obtain ⟨hnew, hbody⟩ := ofPiece_reindentPiece hblank hcode
    rw [Line.codeLine?_of_isCode hcode,
      Line.codeLine?_of_isCode (isCode_reindentPiece hblank hcode), hnew, hbody]
    rfl
  · rw [reindentPiece_of_not_isCode hcode, Line.codeLine?_of_not_isCode hcode]
    rfl

theorem mapLines_eq_mapNumbered (f : List Char → List Char) (text : List Char) :
    mapLines f text = mapNumbered (fun _ => f) text := by
  refine congrArg (List.intercalate ['\n']) (List.ext_getElem? ?_)
  intro index
  rw [List.getElem?_map, List.getElem?_mapIdx]

theorem codeLinesFrom_cons (first : Nat) (line : Line) (rest : List Line) :
    codeLinesFrom first (line :: rest) =
      (line.codeLine? first).toList ++ codeLinesFrom (first + 1) rest := by
  rw [codeLinesFrom, Line.codeLine?]
  split <;> rfl

theorem splitAtNewlines_isPrefix_splitOn (text : List Char) :
    splitAtNewlines text <+: text.splitOn '\n' := by
  rw [splitAtNewlines_eq_splitOn]
  split
  · exact List.dropLast_prefix _
  · exact List.prefix_refl _

section

variable {f : Nat → List Char → List Char}

theorem splitAtNewlines_mapNumbered {text : List Char}
    (hline : ∀ index piece, (text.splitOn '\n')[index]? = some piece → '\n' ∉ f (1 + index) piece)
    (hlast : ∀ front last, text.splitOn '\n' = front ++ [last] →
      (f (1 + front.length) last = [] ↔ last = [])) :
    splitAtNewlines (mapNumbered f text) =
      (splitAtNewlines text).mapIdx fun index => f (1 + index) := by
  obtain hnil | ⟨front, last, hsplit⟩ := (text.splitOn '\n').eq_nil_or_concat'
  · exact absurd hnil (List.splitOn_ne_nil _ _)
  · have hold := splitAtNewlines_of_splitOn_eq hsplit
    have hlines : ∀ piece ∈ (front ++ [last]).mapIdx fun index => f (1 + index), '\n' ∉ piece := by
      intro piece hmem
      obtain ⟨index, hlt, rfl⟩ := List.mem_mapIdx.1 hmem
      rw [hsplit] at hline
      exact hline index _ (List.getElem?_eq_getElem hlt)
    rw [List.mapIdx_concat] at hlines
    rw [mapNumbered, hsplit, List.mapIdx_concat, splitAtNewlines_intercalate hlines, hold]
    simp only [hlast front last hsplit]
    split
    · rfl
    · exact List.mapIdx_concat.symm

/-- A piece with content is one of the code lines. -/
theorem mem_codeLines_of_getElem? {text : String} {index : Nat} {piece : List Char}
    (hpiece : (text.toList.splitOn '\n')[index]? = some piece)
    (hcode : (Line.ofPiece piece).IsCode) :
    ⟨1 + index, (Line.ofPiece piece).indent, (Line.ofPiece piece).body⟩ ∈ codeLines text := by
  refine mem_codeLines_iff.2 ⟨index, withoutReturn piece, ?_, Line.isCode_iff.1 hcode, ?_⟩
  · rw [physicalLines, List.getElem?_map, hpiece]
    rfl
  · rw [Nat.add_comm]
    rfl

/-- Where each line becomes one whose content is changed in a known way, so do the code lines. -/
theorem codeLinesFrom_mapIdx {change : CodeLine → CodeLine} {first : Nat}
    {pieces : List (List Char)}
    (h : ∀ index piece, pieces[index]? = some piece →
      (Line.ofPiece (f (first + index) piece)).codeLine? (first + index) =
        ((Line.ofPiece piece).codeLine? (first + index)).map change) :
    codeLinesFrom first ((pieces.mapIdx fun index => f (first + index)).map Line.ofPiece) =
      (codeLinesFrom first (pieces.map Line.ofPiece)).map change := by
  induction pieces generalizing first with
  | nil => rfl
  | cons piece rest ih =>
    have hhead := h 0 piece rfl
    have hshift : (fun index => f (first + (index + 1))) = fun index => f (first + 1 + index) := by
      funext index
      rw [Nat.add_assoc, Nat.add_comm 1]
    have hrest := @ih (first + 1) (by
      intro index found hfound
      have hnext := h (index + 1) found hfound
      rwa [Nat.add_comm index, ← Nat.add_assoc] at hnext)
    rw [List.mapIdx_cons, List.map_cons, List.map_cons, codeLinesFrom_cons, codeLinesFrom_cons,
      List.map_append, hshift, hrest]
    rw [Nat.add_zero] at hhead ⊢
    rw [hhead]
    cases (Line.ofPiece piece).codeLine? first <;> rfl

end

section

variable {f : Nat → List Char → List Char} {change : CodeLine → CodeLine} {text : String}
  (hline : ∀ index piece, (text.toList.splitOn '\n')[index]? = some piece →
    '\n' ∉ f (1 + index) piece)
  (hlast : ∀ front last, text.toList.splitOn '\n' = front ++ [last] →
    (f (1 + front.length) last = [] ↔ last = []))
include hline hlast

theorem length_split_mapNumbered :
    (Line.split (mapNumbered f text.toList)).length = (Line.split text.toList).length := by
  rw [Line.split, Line.split, splitAtNewlines_mapNumbered hline hlast, List.length_map,
    List.length_map, List.length_mapIdx]

/-- The code lines of a changed text are those of the text, each changed as its line is. -/
theorem codeLines_mapNumbered
    (hcode : ∀ index piece, (text.toList.splitOn '\n')[index]? = some piece →
      (Line.ofPiece (f (1 + index) piece)).codeLine? (1 + index) =
        ((Line.ofPiece piece).codeLine? (1 + index)).map change) :
    codeLines (String.ofList (mapNumbered f text.toList)) = (codeLines text).map change := by
  rw [codeLines, String.toList_ofList, Line.split, splitAtNewlines_mapNumbered hline hlast]
  refine codeLinesFrom_mapIdx ?_
  intro index piece h
  obtain ⟨hlt, -⟩ := List.getElem?_eq_some_iff.1 h
  obtain ⟨more, hmore⟩ := splitAtNewlines_isPrefix_splitOn text.toList
  refine hcode index piece ?_
  rw [← hmore, List.getElem?_append_left hlt, h]

end

end Offside
