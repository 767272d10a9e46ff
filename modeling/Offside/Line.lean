import Offside.Alphabet

/-!
# Physical lines

A text is read line by line. A line ends at a line feed, and a carriage return
directly before it, or at the end of the text, belongs to the ending. The text
after the last line feed is a line only if it is not empty.
-/

namespace Offside

/-- A line of a text without its ending. The extent is the distance to the start of the
    next line; a last line without line feed counts as if it had one. -/
structure Line where
  text : List Char
  extent : Nat
deriving DecidableEq, Repr

/-- The pieces of a text between line feeds; an empty piece at the end is left out. -/
def splitAtNewlines : List Char → List (List Char)
  | [] => []
  | c :: rest =>
    if c = '\n' then [] :: splitAtNewlines rest
    else
      match splitAtNewlines rest with
      | [] => [[c]]
      | piece :: pieces => (c :: piece) :: pieces

/-- A text that is cut behind a line feed has the pieces of both parts. -/
theorem splitAtNewlines_append (front back : List Char) :
    splitAtNewlines (front ++ '\n' :: back) =
      splitAtNewlines (front ++ ['\n']) ++ splitAtNewlines back := by
  induction front with
  | nil => simp [splitAtNewlines]
  | cons c rest ih =>
    simp only [List.cons_append, splitAtNewlines, ih]
    split
    · rfl
    · cases hrest : splitAtNewlines (rest ++ ['\n']) with
      | cons piece pieces => rfl
      | nil =>
        cases rest with
        | nil => simp [splitAtNewlines] at hrest
        | cons d tail =>
          simp only [List.cons_append, splitAtNewlines] at hrest
          split at hrest
          · cases hrest
          · split at hrest <;> cases hrest

/-- A text without line feed is one piece, unless it is empty. -/
theorem splitAtNewlines_of_not_mem {text : List Char} (h : '\n' ∉ text) :
    splitAtNewlines text = if text.isEmpty then [] else [text] := by
  induction text with
  | nil => rfl
  | cons c rest ih =>
    simp only [List.mem_cons, not_or] at h
    have hc : c ≠ '\n' := fun heq => h.1 heq.symm
    rw [splitAtNewlines, if_neg hc, ih h.2]
    cases rest <;> rfl

namespace Line

/-- The line that a piece between line feeds makes: one carriage return at its end is part
    of the ending. -/
def ofPiece (piece : List Char) : Line where
  text := if piece.getLast? = some '\r' then piece.dropLast else piece
  extent := piece.length + 1

/-- The lines of a text. -/
def split (text : List Char) : List Line :=
  (splitAtNewlines text).map ofPiece

def indent (line : Line) : List Char :=
  line.text.takeWhile isBlank

def body (line : Line) : List Char :=
  line.text.dropWhile isBlank

/-- A line has content when something other than a comment stands behind its leading
    blanks. -/
def IsCode (line : Line) : Prop :=
  ∃ c ∈ line.body.head?, c ≠ commentMark

instance (line : Line) : Decidable line.IsCode :=
  Option.decidableExistsMem line.body.head?

@[simp] theorem indent_append_body (line : Line) : line.indent ++ line.body = line.text :=
  List.takeWhile_append_dropWhile

example : split "a\r\n\r\n\tb\r".toList =
    [⟨['a'], 3⟩, ⟨[], 2⟩, ⟨['\t', 'b'], 4⟩] := by
  decide +kernel

end Line

end Offside
