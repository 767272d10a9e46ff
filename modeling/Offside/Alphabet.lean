import Offside.Token.Kind

/-!
# The alphabet

The classes of characters that decide how a line is read. All of them lie within
ASCII; any other character stands only in comments.
-/

namespace Offside

/-- Space and tab: the characters of indentation and between tokens. -/
def isBlank (c : Char) : Bool :=
  c == ' ' || c == '\t'

/-- A word starts with a letter or an underscore. -/
def isWordStart (c : Char) : Bool :=
  c.isAlpha || c == '_'

/-- Behind its start a word also has digits. -/
def isWordChar (c : Char) : Bool :=
  isWordStart c || c.isDigit

/-- A character that starts an operator of two characters. -/
def isDoubleStart (c : Char) : Bool :=
  Operator.doubles.any fun op => op.text.toList.head? == some c

/-- From this character on, the rest of a line is a comment. -/
def commentMark : Char := '#'

end Offside
