/-!
# Places in a text

A place is a line and a column, both counted from one, in a text that may come
from a named file. A span also knows the column just past its end; it never
crosses a line.
-/

namespace Offside

/-- The name of a file when there is one to show; an empty name shows nothing. -/
def namedFile? (file : Option String) : Option String :=
  file.filter (· ≠ "")

/-- A stretch of one line. Its end is the column just past it, and need not be known. -/
structure Span where
  line : Int
  column : Int
  endColumn : Option Int := none
  file : Option String := none
deriving DecidableEq, Repr

/-- The place where a span starts: file, line and column with colons between them. -/
def Span.text (span : Span) : String :=
  ":".intercalate ((namedFile? span.file).toList ++ [toString span.line, toString span.column])

end Offside
