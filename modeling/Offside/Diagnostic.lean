import Offside.Place
import Offside.Text.Quoted

/-!
# Diagnostics

A diagnostic says what is wrong with a text and where. The problem and the place
are data; the wording is made from them in one place.
-/

namespace Offside

/-- The classes that problems are sorted into; each narrower class belongs to one that
    is broader. -/
inductive Category where
  /-- Any failure at all. -/
  | failure
  /-- A failure at some place of a text. -/
  | lexical
  /-- Leading white space that fits no open block. -/
  | indentation
  /-- Leading white space whose tabs and spaces disagree with an open block. -/
  | mixedIndentation
  /-- A character that starts no token. -/
  | unrecognized
deriving DecidableEq, Repr

def Category.broader? : Category → Option Category
  | failure => none
  | lexical => some failure
  | indentation => some lexical
  | mixedIndentation => some indentation
  | unrecognized => some lexical

/-- A class followed by all broader ones, up to the broadest. -/
def Category.lineage : Category → List Category
  | failure => [failure]
  | lexical => [lexical, failure]
  | indentation => [indentation, lexical, failure]
  | mixedIndentation => [mixedIndentation, indentation, lexical, failure]
  | unrecognized => [unrecognized, lexical, failure]

/-- The lineage of a class is the class itself and then the lineage of the broader one. -/
theorem Category.lineage_eq (category : Category) :
    category.lineage = category :: (category.broader?.map lineage).getD [] := by
  cases category <;> rfl

/-- What is wrong with a text. -/
inductive Problem where
  /-- Something described in words. -/
  | described (text : String)
  /-- A line closes blocks but comes to a width at which no block is open. The wording can
      be replaced. -/
  | unmatchedIndent (width : Int) (levels : List Int) (wording : Option String)
  /-- The leading white space of a line disagrees in tabs and spaces with an open block. -/
  | mixedIndent (width : Int) (levels : List Int)
  /-- A character starts no token. -/
  | unrecognized (character : String)
deriving DecidableEq, Repr

namespace Problem

def category : Problem → Category
  | described _ => .lexical
  | unmatchedIndent .. => .indentation
  | mixedIndent .. => .mixedIndentation
  | unrecognized _ => .unrecognized

def levelsText : List Int → String
  | [] => ""
  | levels => " (open levels: " ++ ", ".intercalate (levels.map toString) ++ ")"

def text : Problem → String
  | described text => text
  | unmatchedIndent _ _ (some wording) => wording
  | unmatchedIndent width levels none =>
    "unindent to width " ++ toString width ++ " does not match any outer indentation level" ++
      levelsText levels
  | mixedIndent _ _ => "inconsistent use of tabs and spaces in indentation"
  | unrecognized character => "unrecognized character " ++ Text.quote character

end Problem

/-- A problem and its place, each part of the place only if it is known. -/
structure Diagnostic where
  problem : Problem
  line : Option Int := none
  column : Option Int := none
  file : Option String := none
deriving DecidableEq, Repr

namespace Diagnostic

/-- The known parts of the place: the file, then the line, then the column in that line. A
    column says nothing without its line. -/
def placeParts (d : Diagnostic) : List String :=
  (namedFile? d.file).toList ++
    match d.line with
    | none => []
    | some line => toString line :: (d.column.map toString).toList

def dropEndColons (text : String) : String :=
  String.ofList (text.toList.reverse.dropWhile (· == ':')).reverse

/-- The place in front of a message: the known parts with colons between them and no
    colon at the end, then a space. Without any part it is empty. -/
def placeText (d : Diagnostic) : String :=
  match d.placeParts with
  | [] => ""
  | parts => dropEndColons (":".intercalate parts) ++ " "

/-- The full message: the place and the wording of the problem. -/
def message (d : Diagnostic) : String :=
  d.placeText ++ d.problem.text

example : message ⟨.unrecognized "!", some 3, some 7, some "a.txt"⟩ =
    "a.txt:3:7 unrecognized character '!'" := by
  decide +kernel

example : message ⟨.described "lost", none, some 7, some "C:"⟩ = "C lost" := by
  decide +kernel

end Diagnostic

end Offside
