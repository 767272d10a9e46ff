import Offside.Proofs.Reading.Passage

/-!
# Moved lines

The number of a line says where it stands and has no bearing on how it is read. When the lines of
a text move down from some line on, their tokens carry the new numbers, and so does a diagnostic
about one of them; all else stays as it was.
-/

namespace Offside

section

variable (first count : Nat)

/-- The number of a line when the lines from the `first` one on move down by `count` lines. -/
def movedLine (number : Int) : Int :=
  if first ≤ number then number + count else number

def movedNumber (number : Nat) : Nat :=
  if first ≤ number then number + count else number

def CodeLine.moveDown (line : CodeLine) : CodeLine :=
  { line with number := movedNumber first count line.number }

def Origin.moveDown (origin : Origin) : Origin :=
  { origin with line := movedNumber first count origin.line }

def Token.moveDown (token : Token) : Token :=
  { token with line := movedLine first count token.line }

/-- A diagnostic about a moved line: the problem, the column and the file stay as they are. -/
def Diagnostic.moveDown (diagnostic : Diagnostic) : Diagnostic :=
  { diagnostic with line := diagnostic.line.map (movedLine first count) }

def Ending.moveDown : Ending → Ending
  | finished => finished
  | failed diagnostic => failed (diagnostic.moveDown first count)

/-- A stream from which the lines from the `first` one on are moved down by `count` lines. -/
def Stream.moveDown (stream : Stream) : Stream :=
  ⟨stream.tokens.map (Token.moveDown first count), stream.ending.moveDown first count⟩

def Passage.moveDown (passage : Passage) : Passage :=
  ⟨passage.tokens.map (Token.moveDown first count),
    passage.outcome.mapError (Diagnostic.moveDown first count)⟩

end

section

variable {first count : Nat}

theorem movedLine_natCast (number : Nat) :
    movedLine first count number = movedNumber first count number := by
  rw [movedLine, movedNumber]
  split <;> split <;> omega

theorem movedNumber_of_le {number : Nat} (h : first ≤ number) :
    movedNumber first count number = number + count :=
  if_pos h

theorem movedNumber_of_lt {number : Nat} (h : number < first) :
    movedNumber first count number = number :=
  if_neg (Nat.not_le.2 h)

theorem mark_moveDown (origin : Origin) (mark : Layout) (column : Nat) :
    (origin.mark mark column).moveDown first count =
      (origin.moveDown first count).mark mark column := by
  rw [Token.moveDown, Origin.mark, movedLine_natCast]
  rfl

theorem token_moveDown (placed : Placed) (origin : Origin) :
    (placed.token origin).moveDown first count = placed.token (origin.moveDown first count) := by
  rw [Token.moveDown, Placed.token, movedLine_natCast]
  rfl

theorem report_moveDown (origin : Origin) (problem : Problem) (column : Option Nat) :
    (origin.report problem column).moveDown first count =
      (origin.moveDown first count).report problem column := by
  rw [Diagnostic.moveDown, Origin.report, Option.map_some, movedLine_natCast]
  rfl

theorem marks_moveDown (shift : OpenBlocks.Shift) (origin : Origin) :
    (shift.marks origin).map (Token.moveDown first count) =
      shift.marks (origin.moveDown first count) := by
  cases shift with
  | opened => exact congrArg (fun token => [token]) (mark_moveDown origin .indent 1)
  | closed closing =>
    rw [OpenBlocks.Shift.marks, List.map_replicate, mark_moveDown]
    rfl

theorem closingTokens_moveDown (origin : Origin) (marksEnd : Bool) (blocks : OpenBlocks) :
    (closingTokens origin marksEnd blocks).map (Token.moveDown first count) =
      closingTokens (origin.moveDown first count) marksEnd blocks := by
  rw [closingTokens, List.map_append, List.map_replicate, mark_moveDown, closingTokens]
  cases marksEnd with
  | true => exact congrArg (_ ++ [·]) (mark_moveDown origin .endOfText 1)
  | false => rfl

theorem contentTokens_moveDown (file : Option String) (line : CodeLine) :
    (line.moveDown first count).contentTokens file =
      (line.contentTokens file).map (Token.moveDown first count) := by
  have hlexemes : (fun placed : Placed => (placed.token (line.origin file)).moveDown first count) =
      fun placed => placed.token ((line.moveDown first count).origin file) := by
    funext placed
    exact token_moveDown placed _
  cases hfault : line.content.fault with
  | some fault =>
    have hmoved : (line.moveDown first count).content.fault = some fault := hfault
    rw [contentTokens_of_fault hfault, contentTokens_of_fault hmoved, List.map_map]
    exact congrArg (line.content.lexemes.map ·) hlexemes.symm
  | none =>
    have hmoved : (line.moveDown first count).content.fault = none := hfault
    rw [contentTokens_of_finished hfault, contentTokens_of_finished hmoved, List.map_append,
      List.map_map, List.map_singleton, mark_moveDown]
    exact congrArg (line.content.lexemes.map · ++ _) hlexemes.symm

theorem fault?_moveDown (file : Option String) (line : CodeLine) :
    (line.moveDown first count).fault? file =
      (line.fault? file).map (Diagnostic.moveDown first count) := by
  rw [CodeLine.fault?_eq, CodeLine.fault?_eq, Option.map_map]
  show line.content.fault.map _ = _
  congr 1
  funext fault
  exact (report_moveDown (line.origin file) _ _).symm

theorem pass_moveDown (strict : Bool) (file : Option String) (line : CodeLine)
    (blocks : OpenBlocks) :
    (line.moveDown first count).pass strict file blocks =
      (line.pass strict file blocks).moveDown first count := by
  have hindent : (line.moveDown first count).indent = line.indent := rfl
  cases hresolve : blocks.resolve strict line.indent with
  | error problem =>
    rw [line.pass_of_error hresolve, CodeLine.pass_of_error _ (hindent ▸ hresolve)]
    exact congrArg (Passage.mk [] <| .error ·)
      (report_moveDown (line.origin file) problem none).symm
  | ok result =>
    obtain ⟨next, shift⟩ := result
    rw [line.pass_of_ok hresolve, CodeLine.pass_of_ok _ (hindent ▸ hresolve),
      contentTokens_moveDown, fault?_moveDown]
    show Passage.mk _ _ = Passage.mk (List.map _ (_ ++ _)) _
    rw [List.map_append, marks_moveDown]
    cases line.fault? file <;> rfl

theorem andThen_moveDown (passage : Passage) {next moved : OpenBlocks → Passage}
    (h : ∀ blocks, moved blocks = (next blocks).moveDown first count) :
    (passage.moveDown first count).andThen moved =
      (passage.andThen next).moveDown first count := by
  obtain ⟨tokens, outcome⟩ := passage
  cases outcome with
  | error diagnostic => rfl
  | ok blocks =>
    show Passage.mk (tokens.map _ ++ (moved blocks).tokens) (moved blocks).outcome =
      Passage.mk ((tokens ++ (next blocks).tokens).map _) _
    rw [h, List.map_append]
    rfl

/-- A passage over moved lines does the same to the blocks, and its tokens are moved. -/
theorem passAll_moveDown (strict : Bool) (file : Option String) (lines : List CodeLine)
    (blocks : OpenBlocks) :
    passAll strict file (lines.map (CodeLine.moveDown first count)) blocks =
      (passAll strict file lines blocks).moveDown first count := by
  induction lines generalizing blocks with
  | nil => rfl
  | cons line rest ih => rw [List.map_cons, passAll, pass_moveDown, andThen_moveDown _ ih, passAll]

theorem close_moveDown (passage : Passage) (origin : Origin) (marksEnd : Bool) :
    (passage.moveDown first count).close
        (closingTokens (origin.moveDown first count) marksEnd) =
      (passage.close (closingTokens origin marksEnd)).moveDown first count := by
  obtain ⟨tokens, outcome⟩ := passage
  cases outcome with
  | error diagnostic => rfl
  | ok last =>
    show Stream.mk (tokens.map _ ++ _) .finished = Stream.mk ((tokens ++ _).map _) .finished
    rw [List.map_append, closingTokens_moveDown]

/-- Lines that are counted from further down are lines that have moved down. -/
theorem codeLinesFrom_add (start : Nat) (lines : List Line) (h : first ≤ start) :
    codeLinesFrom (start + count) lines =
      (codeLinesFrom start lines).map (CodeLine.moveDown first count) := by
  induction lines generalizing start with
  | nil => rfl
  | cons line rest ih =>
    have hrest := ih (start + 1) (Nat.le_succ_of_le h)
    rw [Nat.add_right_comm] at hrest
    simp only [codeLinesFrom, hrest]
    split
    · rw [List.map_cons, CodeLine.moveDown, movedNumber_of_le h]
    · rfl

theorem moveDown_of_lt {line : CodeLine} (h : line.number < first) :
    line.moveDown first count = line := by
  rw [CodeLine.moveDown, movedNumber_of_lt h]

end

end Offside
