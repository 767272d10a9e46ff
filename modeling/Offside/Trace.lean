/-!
# The trace of a reading

While a text is read, a note is taken whenever blocks open or close, and one at
the end. Notes have a channel, a level and a message.
-/

namespace Offside

/-- How urgent a note is. -/
inductive Level where
  | debug
  | info
deriving DecidableEq, Repr

/-- Whether notes of the second level are shown when the first is asked for. -/
def Level.shows : Level → Level → Bool
  | debug, _ => true
  | info, level => level == info

/-- The part of the reading that a note comes from: the blocks, or the text as a whole. -/
inductive Channel where
  | blocks
  | whole
deriving DecidableEq, Repr

/-- The full name of a channel below a root: a name that is the root, or lies below it
    already, is kept. -/
def Channel.qualify (root name : String) : String :=
  if name = root ∨ (root ++ ".").toList.isPrefixOf name.toList then name else root ++ "." ++ name

/-- Something that happened while a text was read: a line opened a block or closed some,
    the end of the text closed some, or the whole text was read. -/
inductive Note where
  | opened (line width depth : Nat)
  | closed (line count width : Nat)
  | closing (count : Nat)
  | finished (lines : Nat) (file : Option String)
deriving DecidableEq, Repr

namespace Note

def message : Note → String
  | opened line width depth =>
    "line " ++ toString line ++ ": indent to width " ++ toString width ++
      " (depth " ++ toString depth ++ ")"
  | closed line count width =>
    "line " ++ toString line ++ ": dedent " ++ toString count ++ " level(s) to width " ++
      toString width
  | closing count => "end of input: closing " ++ toString count ++ " level(s)"
  | finished lines file =>
    "tokenized " ++ toString lines ++ " line(s) from " ++ file.getD "<string>"

def channel : Note → Channel
  | opened .. | closed .. | closing _ => .blocks
  | finished .. => .whole

/-- All notes are for those who follow every step. -/
def level (_ : Note) : Level :=
  .debug

end Note

end Offside
