import Offside.Diagnostic
import Offside.Lexeme
import Offside.Token.Basic

/-!
# The content of a line

Behind its indentation a line is a sequence of lexemes with blanks between them,
up to a comment or the end. The first character that starts no lexeme is a fault,
and nothing behind it is read.

Reading goes on behind each lexeme. It comes to an end because no lexeme is empty,
so what is left is always shorter.
-/

namespace Offside

/-- Where a line stands: its number and the file. -/
structure Origin where
  line : Nat := 1
  file : Option String := none
deriving DecidableEq, Repr

def Origin.mark (origin : Origin) (mark : Layout) (column : Nat := 1) : Token where
  kind := .layout mark
  line := origin.line
  column := column
  file := origin.file

def Origin.report (origin : Origin) (problem : Problem) (column : Option Nat := none) :
    Diagnostic where
  problem := problem
  line := some origin.line
  column := column.map Int.ofNat
  file := origin.file

/-- A lexeme and the column where it starts. -/
structure Placed where
  column : Nat
  lexeme : Lexeme
deriving DecidableEq, Repr

def Placed.token (placed : Placed) (origin : Origin) : Token where
  kind := placed.lexeme.kind
  value := String.ofList placed.lexeme.text
  line := origin.line
  column := placed.column
  literal := placed.lexeme.literal
  file := origin.file

/-- A character that starts no lexeme. -/
structure Fault where
  column : Nat
  character : Char
deriving DecidableEq, Repr

def Fault.diagnostic (fault : Fault) (origin : Origin) : Diagnostic :=
  origin.report (.unrecognized (String.singleton fault.character)) fault.column

/-- The content of a line: its lexemes from left to right, up to the fault if there is
    one. -/
structure Content where
  lexemes : List Placed
  fault : Option Fault
deriving DecidableEq, Repr

namespace Content

def cons (placed : Placed) (content : Content) : Content :=
  { content with lexemes := placed :: content.lexemes }

/-- The content of a text whose first character stands in the given column. -/
def read (column : Nat) : List Char → Content
  | [] => ⟨[], none⟩
  | c :: rest =>
    if isBlank c then read (column + 1) rest
    else if c = commentMark then ⟨[], none⟩
    else
      match _h : Lexeme.read? (c :: rest) with
      | none => ⟨[], some ⟨column, c⟩⟩
      | some lexeme =>
        (read (column + lexeme.text.length) ((c :: rest).drop lexeme.text.length)).cons
          ⟨column, lexeme⟩
termination_by text => text.length
decreasing_by
  · simp
  · exact Lexeme.length_drop_lt_of_read? _h

-- One equation for each way a text can start. Later proofs use these and do not unfold
-- the recursion.

@[simp] theorem read_nil (column : Nat) : read column [] = ⟨[], none⟩ := by
  rw [read]

theorem read_cons_of_isBlank {column : Nat} {c : Char} {rest : List Char} (h : isBlank c = true) :
    read column (c :: rest) = read (column + 1) rest := by
  rw [read, if_pos h]

@[simp] theorem read_comment (column : Nat) (rest : List Char) :
    read column (commentMark :: rest) = ⟨[], none⟩ := by
  rw [read, if_neg (by decide), if_pos rfl]

theorem read_cons_of_read? {column : Nat} {c : Char} {rest : List Char} {lexeme : Lexeme}
    (hblank : isBlank c = false) (hcomment : c ≠ commentMark)
    (h : Lexeme.read? (c :: rest) = some lexeme) :
    read column (c :: rest) =
      (read (column + lexeme.text.length) ((c :: rest).drop lexeme.text.length)).cons
        ⟨column, lexeme⟩ := by
  rw [read, if_neg (by simp [hblank]), if_neg hcomment]
  split
  · next hnone => rw [h] at hnone; cases hnone
  · next found hsome => rw [h] at hsome; cases hsome; rfl

theorem read_cons_of_read?_eq_none {column : Nat} {c : Char} {rest : List Char}
    (hblank : isBlank c = false) (hcomment : c ≠ commentMark)
    (h : Lexeme.read? (c :: rest) = none) :
    read column (c :: rest) = ⟨[], some ⟨column, c⟩⟩ := by
  rw [read, if_neg (by simp [hblank]), if_neg hcomment]
  split
  · rfl
  · next found hsome => rw [h] at hsome; cases hsome

/-- The content of a line from a position on. -/
def ofLine (text : List Char) (start : Nat) : Content :=
  read (start + 1) (text.drop start)

/-- The tokens of a line of `width` characters. The end of the line is a token too, unless
    a fault keeps it from being reached. -/
def tokens (content : Content) (origin : Origin) (width : Nat) : List Token :=
  content.lexemes.map (·.token origin) ++
    if content.fault.isSome then [] else [origin.mark .newline (width + 1)]

def problem? (content : Content) (origin : Origin) : Option Diagnostic :=
  content.fault.map (·.diagnostic origin)

inductive Family where
  | word
  | number
  | operator
deriving DecidableEq, Repr

inductive PositionError where
  | pastEnd
deriving DecidableEq, Repr

/-- The lexeme of one family at a position of a line, with its column. Words and operators
    are known by their first character, so there must be one; a number may always be
    absent. -/
def lexemeAt (family : Family) (text : List Char) (position : Nat) :
    Except PositionError (Option Placed) :=
  let rest := text.drop position
  let found (lexeme : Option Lexeme) := lexeme.map (Placed.mk (position + 1))
  match family with
  | .number => .ok (found (Lexeme.number? rest))
  | .word => if rest = [] then .error .pastEnd else .ok (found (Lexeme.word? rest))
  | .operator => if rest = [] then .error .pastEnd else .ok (found (Lexeme.operator? rest))

example : (read 1 "x=-1 !".toList).lexemes.map (fun p => (p.column, p.lexeme.text)) =
    [(1, ['x']), (2, ['=']), (3, ['-', '1'])] ∧
    (read 1 "x=-1 !".toList).fault = some ⟨6, '!'⟩ := by
  decide +kernel

end Content

end Offside
