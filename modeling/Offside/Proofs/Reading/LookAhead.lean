import Offside.Proofs.Content.Columns
import Offside.Proofs.Content.Positions
import Offside.Proofs.Reading.SideBySide

/-!
# Reading looks ahead only

What stands in front of a position has no bearing on what is read from the position on. Behind any
front a text is read like the text alone, with all columns as many further on as the front is long.
-/

namespace Offside

section

variable (count : Nat)

def Emission.moveRight : Emission → Emission
  | note taken => note taken
  | token emitted => token (emitted.moveRight count)

def Moment.moveRight (moment : Moment) : Moment :=
  { moment with emission := moment.emission.moveRight count }

/-- A run that reads a moved text. The lexer knows no columns and stands where it stood. -/
def Run.moveRight (run : Run) : Run where
  moments := run.moments.map (·.moveRight count)
  ending := run.ending.change (Diagnostic.moveRight count)
  lexer := run.lexer

end

namespace Content

theorem drop_behind (front text : List Char) (position : Nat) :
    (front ++ text).drop (front.length + position) = text.drop position := by
  rw [← List.drop_drop, List.drop_left]

theorem lexemeAt_append (family : Family) (front text : List Char) (position : Nat) :
    lexemeAt family (front ++ text) (front.length + position) =
      (lexemeAt family text position).map (·.map (·.moveRight front.length)) := by
  have hcolumn : front.length + position + 1 = position + 1 + front.length := by omega
  have hfound (lexeme : Option Lexeme) : lexeme.map (Placed.mk (front.length + position + 1)) =
      (lexeme.map (Placed.mk (position + 1))).map (·.moveRight front.length) := by
    rw [hcolumn, Option.map_map]
    rfl
  cases family with
  | number =>
    simp only [lexemeAt, drop_behind, hfound]
    rfl
  | word =>
    simp only [lexemeAt, drop_behind, hfound]
    split <;> rfl
  | operator =>
    simp only [lexemeAt, drop_behind, hfound]
    split <;> rfl

theorem ofLine_append (front text : List Char) (position : Nat) :
    ofLine (front ++ text) (front.length + position) =
      (ofLine text position).moveRight front.length := by
  have hcolumn : front.length + position + 1 = position + 1 + front.length := by omega
  rw [ofLine, ofLine, drop_behind, hcolumn, read_add]

end Content

/-- The content behind a front is read as without it, up to the same end or the same fault. -/
theorem Lexer.readContent_append (lexer : Lexer) (front text : List Char) (position : Nat) :
    lexer.readContent (front ++ text) (front.length + position) =
      (lexer.readContent text position).moveRight front.length := by
  have hlength : (front ++ text).length = text.length + front.length := by
    rw [List.length_append, Nat.add_comm]
  have hending (problem? : Option Diagnostic) :
      ((problem?.map (Diagnostic.moveRight front.length)).map Ending.failed).getD .finished =
        ((problem?.map Ending.failed).getD .finished).change
          (Diagnostic.moveRight front.length) := by
    cases problem? <;> rfl
  have hmoments (tokens : List Token) :
      (Run.emit lexer ((tokens.map (Token.moveRight front.length)).map .token)).moments =
        (Run.emit lexer (tokens.map .token)).moments.map (·.moveRight front.length) := by
    simp only [Run.emit, List.map_map]
    rfl
  simp only [readContent, Run.moveRight, Content.ofLine_append, hlength, Content.tokens_moveRight,
    Content.problem?_moveRight, hending, hmoments]
  rfl

/-- Reading looks ahead only. Each family of lexemes finds behind a front what it finds in the text
    alone, and so does the reading of the content, up to its end or to the same fault, all of it as
    many columns further to the right as the front is long. To go by the position in the whole line
    makes no difference. -/
theorem readsAhead (front text : List Char) (position : Nat) :
    (∀ (family : Content.Family) (origin : Origin),
      (Content.lexemeAt family (front ++ text) (front.length + position)).map
          (·.map (·.token origin)) =
        (Content.lexemeAt family text position).map
          (·.map fun placed => (placed.token origin).moveRight front.length)) ∧
    (∀ lexer : Lexer, lexer.readContent (front ++ text) (front.length + position) =
      (lexer.readContent text position).moveRight front.length) ∧
    (∀ family, ByPosition.lexemeAt family (front ++ text) (front.length + position) =
      Content.lexemeAt family (front ++ text) (front.length + position)) ∧
    ByPosition.content (front ++ text) (front.length + position) =
      Content.ofLine (front ++ text) (front.length + position) := by
  refine ⟨fun family origin => ?_, fun lexer => lexer.readContent_append front text position,
    fun family => ByPosition.lexemeAt_eq _ _ _, ByPosition.content_eq _ _⟩
  rw [Content.lexemeAt_append]
  cases Content.lexemeAt family text position with
  | error reason => rfl
  | ok found => cases found <;> rfl

end Offside
