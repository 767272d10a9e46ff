import Offside.Content
import Offside.Indentation
import Offside.Line
import Offside.Options
import Offside.Trace

/-!
# Reading a text

A lexer stands at the start of a line and knows the blocks open there. Its run is
everything that reading on to the end will emit, tokens and notes, each with the
lexer as it stands right after, and how the reading ends.

A line is finished only when the reading goes on behind it. Until then the lexer
stands at its start, with the blocks as the line has left them, so a reading that is
taken up again from there repeats the content of the line and not its layout.
-/

namespace Offside

/-- A place in a text: the start of a line, with all that is known there. -/
structure Lexer where
  file : Option String := none
  options : Options := {}
  /-- The lines from here on. -/
  ahead : List Line
  /-- The position of this line in the text. One past the end of the text stands behind a
      last line without line feed. -/
  position : Nat := 0
  line : Nat := 1
  blocks : OpenBlocks := ∅

/-- What a reading emits. -/
inductive Emission where
  | note (taken : Note)
  | token (emitted : Token)
deriving DecidableEq, Repr

def Emission.token? : Emission → Option Token
  | token emitted => some emitted
  | note _ => none

def Emission.note? : Emission → Option Note
  | note taken => some taken
  | token _ => none

/-- Something emitted, and the lexer as it stands right after. -/
structure Moment where
  emission : Emission
  lexer : Lexer

/-- How a reading ends. -/
inductive Ending where
  | finished
  | failed (diagnostic : Diagnostic)
deriving DecidableEq, Repr

/-- A reading from some place on: all that it emits, how it ends, and the lexer then. -/
structure Run where
  moments : List Moment
  ending : Ending
  lexer : Lexer

namespace Run

def tokens (run : Run) : List Token :=
  run.moments.filterMap (·.emission.token?)

def notes (run : Run) : List Note :=
  run.moments.filterMap (·.emission.note?)

def nothing (lexer : Lexer) : Run :=
  ⟨[], .finished, lexer⟩

/-- A run that emits a few things while the lexer stays as it is. -/
def emit (lexer : Lexer) (emissions : List Emission) : Run :=
  ⟨emissions.map (⟨·, lexer⟩), .finished, lexer⟩

/-- A run that goes on with another one, unless it has failed. -/
def andThen (run : Run) (next : Lexer → Run) : Run :=
  match run.ending with
  | .failed _ => run
  | .finished =>
    let rest := next run.lexer
    ⟨run.moments ++ rest.moments, rest.ending, rest.lexer⟩

@[simp] theorem nothing_andThen (lexer : Lexer) (next : Lexer → Run) :
    (nothing lexer).andThen next = next lexer := rfl

/-- It does not matter how runs one after the other are grouped. -/
theorem andThen_assoc (run : Run) (next last : Lexer → Run) :
    (run.andThen next).andThen last = run.andThen fun lexer => (next lexer).andThen last := by
  obtain ⟨moments, ending, lexer⟩ := run
  cases ending with
  | failed d => rfl
  | finished =>
    cases h : (next lexer).ending <;> simp [andThen, h]

end Run

namespace Lexer

-- ════════════════════════════════════════════════════════════════════════
-- One line
-- ════════════════════════════════════════════════════════════════════════

/-- The lexer at the start of a text. -/
def ofText (text : String) (file : Option String := none) (options : Options := {}) : Lexer where
  file := file
  options := options
  ahead := Line.split text.toList

def origin (lexer : Lexer) : Origin :=
  ⟨lexer.line, lexer.file⟩

/-- What a shift of the open blocks emits on a line of the given width: one note and then
    one token for each block opened or closed. -/
def shiftEmissions (lexer : Lexer) (width : Nat) : OpenBlocks.Shift → List Emission
  | .opened =>
    [.note (.opened lexer.line width lexer.blocks.depth), .token (lexer.origin.mark .indent)]
  | .closed 0 => []
  | .closed count =>
    .note (.closed lexer.line count width) ::
      List.replicate count (.token (lexer.origin.mark .dedent))

/-- Reads the indentation of a line. -/
def readIndent (lexer : Lexer) (indent : List Char) : Run :=
  match lexer.blocks.resolve lexer.options.isStrict indent with
  | .error problem => ⟨[], .failed (lexer.origin.report problem), lexer⟩
  | .ok (blocks, shift) =>
    let lexer := { lexer with blocks }
    .emit lexer (lexer.shiftEmissions indent.length shift)

/-- Reads the content of a line from a position on. -/
def readContent (lexer : Lexer) (text : List Char) (start : Nat) : Run :=
  let content := Content.ofLine text start
  { Run.emit lexer ((content.tokens lexer.origin text.length).map .token) with
    ending := ((content.problem? lexer.origin).map .failed).getD .finished }

/-- Reads a line: first its indentation and then its content. A line without content is
    passed over. -/
def readLine (lexer : Lexer) (line : Line) : Run :=
  if line.IsCode then
    (lexer.readIndent line.indent).andThen fun lexer =>
      lexer.readContent line.text line.indent.length
  else .nothing lexer

-- ════════════════════════════════════════════════════════════════════════
-- The whole text
-- ════════════════════════════════════════════════════════════════════════

/-- The lexer behind its line. -/
def advance (lexer : Lexer) (line : Line) (rest : List Line) : Lexer :=
  { lexer with
    ahead := rest
    position := lexer.position + line.extent
    line := lexer.line + 1 }

/-- Ends the text: all open blocks are closed at once, and a last note is taken. -/
def close (lexer : Lexer) : Run :=
  let (count, blocks) := lexer.blocks.closeAll
  let lexer := { lexer with blocks }
  .emit lexer <|
    (if count = 0 then [] else [.note (.closing count)]) ++
    List.replicate count (.token (lexer.origin.mark .dedent)) ++
    (if lexer.options.marksEnd then [.token (lexer.origin.mark .endOfText)] else []) ++
    [.note (.finished (lexer.line - 1) (namedFile? lexer.file))]

/-- Reads the given lines and then ends the text. -/
def runLines : List Line → Lexer → Run
  | [], lexer => lexer.close
  | line :: rest, lexer =>
    (lexer.readLine line).andThen fun lexer => runLines rest (lexer.advance line rest)

/-- Reads on to the end of the text. -/
def run (lexer : Lexer) : Run :=
  runLines lexer.ahead lexer

/-- A lexer that stands at a line reads this line and goes on behind it. -/
theorem run_of_ahead_eq_cons {lexer : Lexer} {line : Line} {rest : List Line}
    (h : lexer.ahead = line :: rest) :
    lexer.run = (lexer.readLine line).andThen fun lexer => (lexer.advance line rest).run := by
  simp only [run, h, runLines, advance]

end Lexer

/-- All tokens of a text, or the first problem in it. -/
def tokenize (text : String) (file : Option String := none) (options : Options := {}) :
    Except Diagnostic (List Token) :=
  let run := (Lexer.ofText text file options).run
  match run.ending with
  | .finished => .ok run.tokens
  | .failed diagnostic => .error diagnostic

end Offside
