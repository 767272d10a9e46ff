import Mathlib.Data.List.Basic
import Offside.Proofs.Layout.Blocks

/-!
# Open blocks in two columns

The open blocks can be kept as two columns, the widths of the levels and their indentations, each
from the zero of the text inward. A line then changes both, one after the other, and an open
level is looked up by its width. Nothing in the columns themselves keeps them alike, keeps the
widths apart, or keeps a line that is refused from leaving its traces. That all of this holds
follows from `run_call`: what is done to the columns is what is done to the open blocks.

A change to the columns is a program with exceptions over a state: columns that are changed
before an exception stay changed.
-/

namespace Offside

/-- What can be asked of open blocks: to take in the indentation of a line, whose number is given
    for a report, or to close them all. -/
inductive BlockCall where
  | resolve (indent : List Char) (line : Int)
  | close
deriving DecidableEq, Repr

namespace OpenBlocks

/-- The report of a line that fits no block. -/
def misfit (file : Option String) (line : Int) (problem : Problem) : Diagnostic :=
  ⟨problem, some line, none, file⟩

/-- What open blocks answer to a call, and what becomes of them. The answer is the change in the
    number of blocks when a line is taken in, and the number of blocks closed when all are. -/
def call (strict : Bool) (file : Option String) (blocks : OpenBlocks) :
    BlockCall → Except Diagnostic Int × OpenBlocks
  | .resolve indent line =>
    match blocks.resolve strict indent with
    | .ok (next, shift) => (.ok shift.change, next)
    | .error problem => (.error (misfit file line problem), blocks)
  | .close => (.ok blocks.closeAll.1, blocks.closeAll.2)

end OpenBlocks

/-- The widths of the open levels and their indentations, from the zero of the text inward. -/
structure LevelColumns where
  widths : List Nat := [0]
  indents : List (List Char) := [[]]
deriving DecidableEq, Repr

/-- A change to the columns that may end in a report. -/
abbrev ColumnChange (α : Type) := ExceptT Diagnostic (StateM LevelColumns) α

namespace LevelColumns

/-- Adds a level inside all others. -/
def push (indent : List Char) : ColumnChange Unit := do
  modify fun columns => { columns with widths := columns.widths ++ [indent.length] }
  modify fun columns => { columns with indents := columns.indents ++ [indent] }

/-- Keeps the outermost levels only. -/
def keep (count : Nat) : ColumnChange Unit := do
  modify fun columns => { columns with widths := columns.widths.take count }
  modify fun columns => { columns with indents := columns.indents.take count }

/-- Takes in the indentation of a line. -/
def resolve (strict : Bool) (file : Option String) (indent : List Char) (line : Int) :
    ColumnChange Int := do
  let columns ← get
  let width := indent.length
  let levels := columns.widths.map Int.ofNat
  let mixed := OpenBlocks.misfit file line (.mixedIndent width levels)
  let unmatched := OpenBlocks.misfit file line (.unmatchedIndent width levels none)
  let innermost := columns.indents.getLastD []
  if columns.widths.getLastD 0 < width then
    if strict ∧ ¬ innermost <+: indent then throw mixed
    push indent
    return 1
  if width = columns.widths.getLastD 0 then
    if strict ∧ indent ≠ innermost then throw mixed
    return 0
  let some target := columns.widths.idxOf? width | throw unmatched
  if strict ∧ columns.indents[target]? ≠ some indent then throw mixed
  let closed := columns.widths.length - 1 - target
  keep (target + 1)
  return -closed

/-- Closes all levels but the zero of the text. -/
def close : ColumnChange Int := do
  let columns ← get
  let closed := columns.widths.length - 1
  keep 1
  return closed

def call (strict : Bool) (file : Option String) : BlockCall → ColumnChange Int
  | .resolve indent line => resolve strict file indent line
  | .close => close

/-- What a line answers and leaves, whatever the columns hold. -/
theorem run_resolve (strict : Bool) (file : Option String) (indent : List Char) (line : Int)
    (columns : LevelColumns) :
    (resolve strict file indent line).run.run columns =
      let levels := columns.widths.map Int.ofNat
      let mixed := OpenBlocks.misfit file line (.mixedIndent indent.length levels)
      let unmatched := OpenBlocks.misfit file line (.unmatchedIndent indent.length levels none)
      if columns.widths.getLastD 0 < indent.length then
        if strict ∧ ¬ columns.indents.getLastD [] <+: indent then (.error mixed, columns)
        else (.ok 1, ⟨columns.widths ++ [indent.length], columns.indents ++ [indent]⟩)
      else if indent.length = columns.widths.getLastD 0 then
        if strict ∧ indent ≠ columns.indents.getLastD [] then (.error mixed, columns)
        else (.ok 0, columns)
      else
        match columns.widths.idxOf? indent.length with
        | none => (.error unmatched, columns)
        | some target =>
          if strict ∧ columns.indents[target]? ≠ some indent then (.error mixed, columns)
          else
            (.ok (-(columns.widths.length - 1 - target : Nat)),
              ⟨columns.widths.take (target + 1), columns.indents.take (target + 1)⟩) := by
  have hread (next : LevelColumns → ColumnChange Int) :
      (get >>= next).run.run columns = (next columns).run.run columns := rfl
  rw [resolve, hread]
  simp only
  split
  · split <;> rfl
  · split
    · split <;> rfl
    · cases columns.widths.idxOf? indent.length with
      | none => rfl
      | some target =>
        simp only
        split <;> rfl

end LevelColumns

/-- The columns of open blocks. The text comes first, with a width of zero and no blanks. -/
def OpenBlocks.columns (blocks : OpenBlocks) : LevelColumns where
  widths := blocks.levels
  indents := [] :: blocks.indents.reverse

namespace LevelColumns

variable {strict : Bool} {file : Option String} {indent : List Char} {blocks next : OpenBlocks}
  {inner : List (List Char)}

/-- The columns are equally long, and the innermost block stands at the end of both. -/
theorem columns_eq_concat (blocks : OpenBlocks) :
    ∃ widths indents, blocks.columns = ⟨widths ++ [blocks.width], indents ++ [blocks.innermost]⟩ ∧
      widths.length = blocks.depth ∧ indents.length = blocks.depth := by
  obtain ⟨indents⟩ := blocks
  cases indents with
  | nil => exact ⟨[], [], rfl, rfl, rfl⟩
  | cons indent rest =>
    refine ⟨(OpenBlocks.mk rest).levels, [] :: rest.reverse, ?_, ?_, ?_⟩
    · simp [OpenBlocks.columns, OpenBlocks.width, OpenBlocks.innermost]
    · simp [OpenBlocks.levels, OpenBlocks.depth]
    · simp [OpenBlocks.depth]

theorem getLastD_widths (blocks : OpenBlocks) :
    blocks.columns.widths.getLastD 0 = blocks.width := by
  obtain ⟨widths, indents, hcolumns, -, -⟩ := columns_eq_concat blocks
  rw [hcolumns, List.getLastD_concat]

theorem getLastD_indents (blocks : OpenBlocks) :
    blocks.columns.indents.getLastD [] = blocks.innermost := by
  obtain ⟨widths, indents, hcolumns, -, -⟩ := columns_eq_concat blocks
  rw [hcolumns, List.getLastD_concat]

theorem length_columns (blocks : OpenBlocks) :
    blocks.columns.widths.length = blocks.depth + 1 ∧
      blocks.columns.indents.length = blocks.depth + 1 := by
  obtain ⟨widths, indents, hcolumns, hwidths, hindents⟩ := columns_eq_concat blocks
  rw [hcolumns, List.length_append, List.length_append, hwidths, hindents]
  exact ⟨rfl, rfl⟩

theorem columns_eq_append (hsplit : blocks.indents = inner ++ next.indents) :
    blocks.columns.widths = next.columns.widths ++ (inner.map List.length).reverse ∧
      blocks.columns.indents = next.columns.indents ++ inner.reverse := by
  obtain ⟨indents⟩ := blocks
  obtain rfl : indents = inner ++ next.indents := hsplit
  simp [OpenBlocks.columns, OpenBlocks.levels]

/-- The columns of the blocks that stay open are the front of all columns. -/
theorem take_columns (hsplit : blocks.indents = inner ++ next.indents) :
    LevelColumns.mk (blocks.columns.widths.take (next.depth + 1))
      (blocks.columns.indents.take (next.depth + 1)) = next.columns := by
  obtain ⟨hwidths, hindents⟩ := columns_eq_append hsplit
  rw [hwidths, hindents, List.take_left' (length_columns next).1,
    List.take_left' (length_columns next).2]

theorem getElem?_indents (hsplit : blocks.indents = inner ++ next.indents) :
    blocks.columns.indents[next.depth]? = some next.innermost := by
  obtain ⟨widths, indents, hcolumns, -, hlength⟩ := columns_eq_concat next
  rw [(columns_eq_append hsplit).2, hcolumns, List.append_assoc, ← hlength,
    List.getElem?_append_right (Nat.le_refl _), Nat.sub_self]
  rfl

/-- The widths are apart, so an open level is found by its width where it stands. -/
theorem idxOf?_widths (hn : next.Nested) (hsplit : blocks.indents = inner ++ next.indents) :
    blocks.columns.widths.idxOf? next.width = some next.depth := by
  obtain ⟨front, indents, hcolumns, hlength, -⟩ := columns_eq_concat next
  have hlevels : next.levels = front ++ [next.width] := congrArg LevelColumns.widths hcolumns
  have hapart : (front ++ [next.width]).Pairwise (· < ·) := by
    rwa [OpenBlocks.Nested, hlevels] at hn
  have hnot : next.width ∉ front := fun hmem =>
    Nat.lt_irrefl _ ((List.pairwise_append.1 hapart).2.2 _ hmem _ List.mem_cons_self)
  have hall : blocks.columns.widths = front ++ next.width :: (inner.map List.length).reverse := by
    rw [(columns_eq_append hsplit).1, hcolumns, List.append_assoc, List.singleton_append]
  rw [hall, ← hlength, List.idxOf?_eq_some_iff]
  refine ⟨by simp, by simp, ?_⟩
  intro index hindex heq
  rw [List.getElem_append_left hindex] at heq
  exact hnot (heq ▸ List.getElem_mem hindex)

/-- A line that is narrower than the innermost block closes levels of the columns just as it closes
    blocks, or fits neither. -/
theorem run_resolve_of_narrower (hn : blocks.Nested) (h : indent.length < blocks.width)
    (line : Int) :
    (resolve strict file indent line).run.run blocks.columns =
      ((blocks.call strict file (.resolve indent line)).1,
        (blocks.call strict file (.resolve indent line)).2.columns) := by
  rw [run_resolve]
  simp only [getLastD_widths, OpenBlocks.call]
  rw [if_neg (by omega), if_neg (by omega)]
  by_cases hlevel : indent.length ∈ blocks.levels
  · obtain ⟨inner, hsplit, hinner⟩ := blocks.exists_inner indent.length
    have hwidth := hn.width_outer_eq_iff.2 hlevel
    have htarget := idxOf?_widths (hn.outer indent.length) hsplit
    have hclosed : blocks.columns.widths.length - 1 - (blocks.outer indent.length).depth =
        inner.length := by
      rw [(length_columns blocks).1, Nat.add_sub_cancel, OpenBlocks.depth_eq_of_split hsplit,
        Nat.add_sub_cancel_left]
    rw [hwidth] at htarget
    simp only [htarget]
    rw [getElem?_indents hsplit, take_columns hsplit, hclosed,
      OpenBlocks.resolve_of_level hsplit hinner hwidth]
    simp only [ne_eq, Option.some.injEq, eq_comm (a := indent)]
    split <;> rfl
  · have hnone : blocks.columns.widths.idxOf? indent.length = none :=
      List.idxOf?_eq_none_iff.2 hlevel
    rw [hnone, hn.resolve_eq_unmatchedIndent_iff.2 ⟨h, hlevel⟩]
    rfl

/-- What is done to the columns of open blocks is what is done to the blocks. -/
theorem run_call (hn : blocks.Nested) (asked : BlockCall) :
    (call strict file asked).run.run blocks.columns =
      ((blocks.call strict file asked).1, (blocks.call strict file asked).2.columns) := by
  cases asked with
  | close =>
    have hclosed : blocks.columns.widths.length - 1 = blocks.depth := by
      rw [(length_columns blocks).1, Nat.add_sub_cancel]
    have hrun : (call strict file .close).run.run blocks.columns =
        (.ok ((blocks.columns.widths.length - 1 : Nat) : Int), (∅ : OpenBlocks).columns) := rfl
    rw [hrun, hclosed]
    rfl
  | resolve indent line =>
    rw [call]
    obtain hwider | hsame | hnarrower := Nat.lt_trichotomy blocks.width indent.length
    · rw [run_resolve]
      simp only [getLastD_widths, getLastD_indents, OpenBlocks.call]
      rw [if_pos hwider, OpenBlocks.resolve_of_wider hwider]
      split
      · rfl
      · simp [OpenBlocks.columns, OpenBlocks.Shift.change]
    · rw [run_resolve]
      simp only [getLastD_widths, getLastD_indents, OpenBlocks.call]
      rw [if_neg (by omega), if_pos hsame.symm,
        OpenBlocks.resolve_of_level (List.nil_append _).symm (by simp) hsame]
      split <;> rfl
    · exact run_resolve_of_narrower hn hnarrower line

end LevelColumns

end Offside
