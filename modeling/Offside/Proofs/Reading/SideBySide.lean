import Offside.Proofs.Reading.Passage

/-!
# Readings side by side

A text and a changed one are read side by side. The blocks that are open in the two readings are
related in some way, what the second one hands out is what the first one hands out with a change
to each token, and where the first one fails the second one does so too. It is enough to show
this for one line at a time.
-/

namespace Offside

section

variable (move : Token → Token) (report : Diagnostic → Diagnostic)
  (rel : OpenBlocks → OpenBlocks → Prop)

/-- Two passages side by side. The tokens of the second are those of the first, changed, and they
    end alike: with related blocks, or with a diagnostic that is changed in the second. -/
inductive Passage.Follows : Passage → Passage → Prop where
  | ok (tokens : List Token) {blocks blocks' : OpenBlocks} (h : rel blocks blocks') :
      Follows ⟨tokens, .ok blocks⟩ ⟨tokens.map move, .ok blocks'⟩
  | error (tokens : List Token) (diagnostic : Diagnostic) :
      Follows ⟨tokens, .error diagnostic⟩ ⟨tokens.map move, .error (report diagnostic)⟩

/-- A line whose layout, content and fault are those of another one, changed. -/
structure CodeLine.Follows (file : Option String) (line line' : CodeLine) : Prop where
  marks_eq : ∀ shift : OpenBlocks.Shift,
    shift.marks (line'.origin file) = (shift.marks (line.origin file)).map move
  contentTokens_eq : line'.contentTokens file = (line.contentTokens file).map move
  fault?_eq : line'.fault? file = (line.fault? file).map report

def Ending.change : Ending → Ending
  | finished => finished
  | failed diagnostic => failed (report diagnostic)

/-- A stream with each of its tokens changed, and its diagnostic if it ends with one. -/
def Stream.change (stream : Stream) : Stream :=
  ⟨stream.tokens.map move, stream.ending.change report⟩

end

section

variable {move : Token → Token} {report : Diagnostic → Diagnostic}
  {rel : OpenBlocks → OpenBlocks → Prop} {strict strict' : Bool} {file : Option String}
  {passage passage' : Passage} {line line' : CodeLine} {blocks blocks' : OpenBlocks}

theorem Passage.Follows.andThen (h : Follows move report rel passage passage')
    {next next' : OpenBlocks → Passage}
    (hnext : ∀ blocks blocks', rel blocks blocks' →
      Follows move report rel (next blocks) (next' blocks')) :
    Follows move report rel (passage.andThen next) (passage'.andThen next') := by
  cases h with
  | error tokens diagnostic => exact .error tokens diagnostic
  | @ok tokens blocks blocks' hrel =>
    have hrest := hnext blocks blocks' hrel
    rw [Passage.andThen_of_ok rfl, Passage.andThen_of_ok rfl]
    generalize next blocks = rest at hrest
    generalize next' blocks' = rest' at hrest
    cases hrest with
    | error more diagnostic =>
      rw [← List.map_append]
      exact .error _ _
    | ok more hlast =>
      rw [← List.map_append]
      exact .ok _ hlast

/-- The streams of two passages side by side, when the end of the text is changed like the rest. -/
theorem Passage.Follows.close (h : Follows move report rel passage passage')
    {closing closing' : OpenBlocks → List Token}
    (hclosing : ∀ blocks blocks', rel blocks blocks' →
      closing' blocks' = (closing blocks).map move) :
    passage'.close closing' = (passage.close closing).change move report := by
  cases h with
  | error tokens diagnostic => rfl
  | ok tokens hrel =>
    rw [Passage.close_of_ok rfl, Passage.close_of_ok rfl, hclosing _ _ hrel, ← List.map_append]
    rfl

namespace CodeLine

theorem follows_pass_of_error {problem problem' : Problem}
    (h : blocks.resolve strict line.indent = .error problem)
    (h' : blocks'.resolve strict' line'.indent = .error problem')
    (hreport : (line'.origin file).report problem' =
      report ((line.origin file).report problem)) :
    Passage.Follows move report rel (line.pass strict file blocks)
      (line'.pass strict' file blocks') := by
  rw [line.pass_of_error h, line'.pass_of_error h', hreport]
  exact .error [] _

theorem Follows.pass_of_ok (hline : Follows move report file line line')
    {next next' : OpenBlocks} {shift : OpenBlocks.Shift}
    (h : blocks.resolve strict line.indent = .ok (next, shift))
    (h' : blocks'.resolve strict' line'.indent = .ok (next', shift)) (hrel : rel next next') :
    Passage.Follows move report rel (line.pass strict file blocks)
      (line'.pass strict' file blocks') := by
  rw [line.pass_of_ok h, line'.pass_of_ok h', hline.marks_eq, hline.contentTokens_eq,
    hline.fault?_eq, ← List.map_append]
  cases line.fault? file with
  | none => exact .ok _ hrel
  | some diagnostic => exact .error _ diagnostic

end CodeLine

/-- Passages over lines of which each follows the other, whatever related blocks are open in front
    of it. -/
theorem follows_passAll {lines : List CodeLine} {change : CodeLine → CodeLine}
    (hlines : ∀ line ∈ lines, ∀ blocks blocks', rel blocks blocks' →
      Passage.Follows move report rel (line.pass strict file blocks)
        ((change line).pass strict' file blocks'))
    (hrel : rel blocks blocks') :
    Passage.Follows move report rel (passAll strict file lines blocks)
      (passAll strict' file (lines.map change) blocks') := by
  induction lines generalizing blocks blocks' with
  | nil => exact .ok [] hrel
  | cons line rest ih =>
    obtain ⟨hline, hrest⟩ := List.forall_mem_cons.1 hlines
    exact (hline blocks blocks' hrel).andThen fun _ _ => ih hrest

end

end Offside
