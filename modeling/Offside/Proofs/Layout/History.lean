import Mathlib.Data.List.Basic
import Offside.Proofs.Layout.Blocks
import Offside.Proofs.Reading.Passage

/-!
# Open blocks as a record of lines

The blocks open at some point of a text can be told from the lines read so far, without
following what each line did. A line is in force as long as no narrower line has come after
it, and the widths of the lines in force are just the levels of the open blocks.
-/

namespace Offside

/-- The width of the last line read; before the first it is zero. -/
def lastWidth (history : List CodeLine) : Nat :=
  (history.getLast?.map CodeLine.width).getD 0

/-- A line of a history is in force as long as no later line is narrower. -/
def InForce (history : List CodeLine) (line : CodeLine) : Prop :=
  ∃ front between, history = front ++ line :: between ∧
    ∀ later ∈ between, line.width ≤ later.width

/-- The levels open behind a history, in order: zero and the widths of the lines in force. -/
def OpenLevels (history : List CodeLine) (levels : List Nat) : Prop :=
  levels.Pairwise (· < ·) ∧
    ∀ width, width ∈ levels ↔ width = 0 ∨ ∃ line, InForce history line ∧ line.width = width

/-- Blocks that are open behind a history: the innermost comes from the last line, and the
    levels from the lines in force. -/
structure Records (history : List CodeLine) (blocks : OpenBlocks) : Prop where
  width_eq : blocks.width = lastWidth history
  openLevels : OpenLevels history blocks.levels

@[simp] theorem lastWidth_concat (history : List CodeLine) (line : CodeLine) :
    lastWidth (history ++ [line]) = line.width := by
  simp [lastWidth]

theorem not_inForce_nil (line : CodeLine) : ¬ InForce [] line := by
  rintro ⟨front, between, h, -⟩
  cases front <;> cases h

theorem InForce.mem {history : List CodeLine} {line : CodeLine} (h : InForce history line) :
    line ∈ history := by
  obtain ⟨front, between, rfl, -⟩ := h
  exact List.mem_append_right _ List.mem_cons_self

/-- Behind one more line, that line is in force, and of the others those that are not wider. -/
theorem inForce_concat {history : List CodeLine} {line opener : CodeLine} :
    InForce (history ++ [line]) opener ↔
      opener = line ∨ InForce history opener ∧ opener.width ≤ line.width := by
  constructor
  · rintro ⟨front, between, hsplit, hlater⟩
    rcases between.eq_nil_or_concat' with rfl | ⟨rest, last, rfl⟩
    · obtain ⟨-, heq⟩ := List.append_inj' hsplit rfl
      exact .inl (List.cons.inj heq).1.symm
    · have hsplit' : history ++ [line] = (front ++ opener :: rest) ++ [last] := by
        rw [hsplit, List.append_assoc, List.cons_append]
      obtain ⟨hhistory, hlast⟩ := List.append_inj' hsplit' rfl
      obtain rfl := (List.cons.inj hlast).1
      refine .inr ⟨⟨front, rest, hhistory, ?_⟩, hlater line (by simp)⟩
      intro later hmem
      exact hlater later (List.mem_append_left _ hmem)
  · rintro (rfl | ⟨⟨front, between, rfl, hlater⟩, hle⟩)
    · exact ⟨history, [], rfl, by simp⟩
    · refine ⟨front, between ++ [line], by simp, ?_⟩
      intro later hmem
      rcases List.mem_append.1 hmem with hmem | hmem
      · exact hlater later hmem
      · rw [List.mem_singleton.1 hmem]
        exact hle

theorem records_nil : Records [] ∅ where
  width_eq := rfl
  openLevels := by
    refine ⟨OpenBlocks.nested_empty, ?_⟩
    intro width
    simp [not_inForce_nil]

theorem Records.nested {history : List CodeLine} {blocks : OpenBlocks}
    (h : Records history blocks) : blocks.Nested :=
  h.openLevels.1

section

variable {strict : Bool} {file : Option String} {history : List CodeLine}
  {blocks next last : OpenBlocks} {shift : OpenBlocks.Shift}

theorem Records.resolve (h : Records history blocks) {line : CodeLine}
    (hok : blocks.resolve strict line.indent = .ok (next, shift)) :
    Records (history ++ [line]) next where
  width_eq := by
    rw [lastWidth_concat, OpenBlocks.width_resolve hok]
    rfl
  openLevels := by
    refine ⟨h.nested.resolve hok, ?_⟩
    intro width
    rw [h.nested.mem_levels_resolve hok, h.openLevels.2]
    simp only [inForce_concat]
    constructor
    · rintro (rfl | ⟨rfl | ⟨opener, hforce, rfl⟩, hle⟩)
      · exact .inr ⟨line, .inl rfl, rfl⟩
      · exact .inl rfl
      · exact .inr ⟨opener, .inr ⟨hforce, hle⟩, rfl⟩
    · rintro (rfl | ⟨opener, rfl | ⟨hforce, hle⟩, rfl⟩)
      · exact .inr ⟨.inl rfl, Nat.zero_le _⟩
      · exact .inl rfl
      · exact .inr ⟨.inr ⟨opener, hforce, rfl⟩, hle⟩

theorem Records.passAll {lines : List CodeLine} (h : Records history blocks)
    (hok : (passAll strict file lines blocks).outcome = .ok last) :
    Records (history ++ lines) last :=
  passAll_invariant (fun _ _ _ _ _ hrecords hresolve => hrecords.resolve hresolve) h hok

/-- A line opens a block just when it is wider than the line before. -/
theorem Records.opened_iff (h : Records history blocks) {line : CodeLine}
    (hok : blocks.resolve strict line.indent = .ok (next, shift)) :
    shift = .opened ↔ lastWidth history < line.width := by
  rw [← h.width_eq]
  obtain ⟨inner, -, -, rfl, hwidth, -, rfl⟩ | ⟨hwidth, -, -, rfl⟩ := OpenBlocks.resolve_eq_ok hok
  · have hle := h.nested.le_width (h.nested.width_outer_eq_iff.1 hwidth)
    constructor
    · intro heq
      cases heq
    · intro hlt
      exact absurd hlt (Nat.not_lt.2 hle)
  · exact ⟨fun _ => hwidth, fun _ => rfl⟩

/-- Without strictness a line matches no block just when it is narrower than the line before,
    has some width, and no line of its width is in force. -/
theorem Records.resolve_loose_eq_error_iff (h : Records history blocks) {line : CodeLine}
    {problem : Problem} :
    blocks.resolve false line.indent = .error problem ↔
      problem = .unmatchedIndent line.width (blocks.levels.map Int.ofNat) none ∧
        line.width < lastWidth history ∧ line.width ≠ 0 ∧
          ¬ ∃ earlier, InForce history earlier ∧ earlier.width = line.width := by
  rw [h.nested.resolve_loose_eq_error_iff, h.openLevels.2, h.width_eq, not_or]
  rfl

end

end Offside
