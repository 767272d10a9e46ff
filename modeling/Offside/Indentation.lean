import Offside.Diagnostic

/-!
# Open blocks

The blocks open at a line are known by their indentation, the blanks in front of
their first line. A new line is held against them: deeper indentation opens a
block, the indentation of an open block closes all blocks inside it, and anything
else fits no block.

The text itself counts as a block of width zero that is always open; it is not
stored. Space and tab both count as one column. Where they must not be mixed, the
indentation itself is compared and not only its width.
-/

namespace Offside

/-- The blocks open at some point of a text, by their indentations, the innermost first. -/
structure OpenBlocks where
  indents : List (List Char) := []
deriving DecidableEq, Repr

namespace OpenBlocks

instance : EmptyCollection OpenBlocks := ⟨⟨[]⟩⟩

/-- The widths of the open blocks from the outermost in, after the zero of the text. -/
def levels (blocks : OpenBlocks) : List Nat :=
  0 :: (blocks.indents.map List.length).reverse

def depth (blocks : OpenBlocks) : Nat :=
  blocks.indents.length

/-- The indentation of the innermost block; that of the text is empty. -/
def innermost (blocks : OpenBlocks) : List Char :=
  blocks.indents.headD []

def width (blocks : OpenBlocks) : Nat :=
  blocks.innermost.length

/-- The blocks that stay open at a line of the given width: all that are not wider. -/
def outer (blocks : OpenBlocks) (width : Nat) : OpenBlocks :=
  ⟨blocks.indents.dropWhile fun indent => width < indent.length⟩

/-- What a line does to the open blocks: it opens one, or closes some number of them,
    most often none. -/
inductive Shift where
  | opened
  | closed (count : Nat)
deriving DecidableEq, Repr

def Shift.change : Shift → Int
  | opened => 1
  | closed count => -count

/-- The effect of a line's indentation on the open blocks. When `strict` is set, the
    indentation must extend that of the block around a new block, and repeat that of a
    block it comes back to. A line that fits no block is a problem and changes nothing. -/
def resolve (strict : Bool) (indent : List Char) (blocks : OpenBlocks) :
    Except Problem (OpenBlocks × Shift) :=
  let width := indent.length
  let levels := blocks.levels.map Int.ofNat
  let outer := blocks.outer width
  let closed := blocks.depth - outer.depth
  if outer.width = width then
    if strict ∧ outer.innermost ≠ indent then .error (.mixedIndent width levels)
    else .ok (outer, .closed closed)
  else if closed ≠ 0 then .error (.unmatchedIndent width levels none)
  else if strict ∧ ¬ outer.innermost <+: indent then .error (.mixedIndent width levels)
  else .ok (⟨indent :: blocks.indents⟩, .opened)

/-- Closes all open blocks. The number of them comes with the outcome. -/
def closeAll (blocks : OpenBlocks) : Nat × OpenBlocks :=
  (blocks.depth, ∅)

@[simp] theorem levels_empty : (∅ : OpenBlocks).levels = [0] := rfl

/-- A new block adds its width to the levels. -/
@[simp] theorem levels_cons (indent : List Char) (indents : List (List Char)) :
    (OpenBlocks.mk (indent :: indents)).levels =
      (OpenBlocks.mk indents).levels ++ [indent.length] := by
  simp [levels]

/-- The blocks that stay open are some of the open blocks, and nothing inside is kept. -/
theorem outer_indents_isSuffix (blocks : OpenBlocks) (width : Nat) :
    (blocks.outer width).indents <:+ blocks.indents :=
  List.dropWhile_suffix _

/-- Of the blocks that stay open none is wider than the line. -/
theorem width_outer_le (blocks : OpenBlocks) (width : Nat) :
    (blocks.outer width).width ≤ width := by
  obtain ⟨indents⟩ := blocks
  induction indents with
  | nil => simp [outer, OpenBlocks.width, innermost]
  | cons indent rest ih =>
    by_cases h : width < indent.length
    · simpa [outer, OpenBlocks.width, innermost, h] using ih
    · simpa [outer, OpenBlocks.width, innermost, h] using Nat.not_lt.1 h

example : ((resolve false "  ".toList ⟨["    ".toList, "  ".toList]⟩).toOption.map fun r =>
    (r.1.levels, r.2)) = some ([0, 2], .closed 1) := by
  decide +kernel

example : (resolve true "\t\t".toList ⟨[" ".toList]⟩).toOption = none ∧
    (resolve false "\t".toList ⟨["  ".toList]⟩).toOption = none := by
  decide +kernel

end OpenBlocks

end Offside
