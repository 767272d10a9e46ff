import Mathlib.Algebra.Ring.Int.Defs
import Mathlib.Data.List.Chain
import Offside.Proofs.Layout.Columns

/-!
# Open blocks through any calls

Open blocks may be asked for anything in any order: to take in any text as an indentation, fitting
or not, and to close at any time. What one call does is said in `OpenBlocks.resolve_eq_ok` and
`OpenBlocks.resolve_eq_error`; from that follow the invariant of a run of calls, what a line that
is taken in leaves, that a line that is refused leaves everything as it was, and that the
answers add up to the number of open blocks.
-/

namespace Offside

/-- What an answer says about the number of open blocks: a line that is taken in answers by how
    much it grows, and closing answers by how much it shrinks. -/
def BlockCall.gain : BlockCall → Except Diagnostic Int → Int
  | .resolve .., .ok change => change
  | .close, .ok count => -count
  | _, .error _ => 0

section

variable (strict : Bool) (file : Option String) (calls : List BlockCall)

/-- Calls one after the other, with their answers. -/
def OpenBlocks.callAll : StateM OpenBlocks (List (Except Diagnostic Int)) :=
  calls.mapM fun asked => modifyGet fun blocks => blocks.call strict file asked

/-- Calls one after the other on columns. A call that ends in a report does not keep the next from
    being made, on whatever it has left. -/
def LevelColumns.callAll : StateM LevelColumns (List (Except Diagnostic Int)) :=
  calls.mapM fun asked => (LevelColumns.call strict file asked).run

end

/-- Both columns start with the text, each width is that of the indentation beside it, and the
    widths increase. Where tabs and spaces must agree, each indentation properly extends the one
    before it. -/
structure LevelColumns.Aligned (strict : Bool) (columns : LevelColumns) : Prop where
  head_eq : columns.widths.head? = some 0
  increasing : columns.widths.IsChain (· < ·)
  length_eq : columns.indents.length = columns.widths.length
  widths_eq : columns.indents.map List.length = columns.widths
  extending : strict = true →
    columns.indents.IsChain fun outer inner => outer <+: inner ∧ outer ≠ inner

namespace OpenBlocks

/-- Blocks as calls leave them: nested, and chained where tabs and spaces must agree. -/
structure Sound (strict : Bool) (blocks : OpenBlocks) : Prop where
  nested : blocks.Nested
  chained : strict = true → blocks.Chained

/-- A line has been taken in: the answer is the change in depth, the levels that are smaller than
    its width have stayed with its width as the last, and the same line again changes nothing. -/
structure TakenIn (strict : Bool) (file : Option String) (indent : List Char)
    (blocks next : OpenBlocks) (change : Int) : Prop where
  change_eq : change = next.depth - blocks.depth
  change_le : change ≤ 1
  width_eq : next.width = indent.length
  levels_eq : next.levels = blocks.levels.filter (· < indent.length) ++ [indent.length]
  again : ∀ line, next.call strict file (.resolve indent line) = (.ok 0, next)

/-- A line has been refused: all blocks are as they were and are named in the report, which says
    that the line comes to no level just when it is narrower than the innermost block and has the
    width of none; any other report is about tabs and spaces. -/
structure Refused (strict : Bool) (file : Option String) (indent : List Char) (line : Int)
    (blocks next : OpenBlocks) (report : Diagnostic) : Prop where
  unchanged : next = blocks
  report_eq : report = misfit file line (.unmatchedIndent indent.length
      (blocks.levels.map Int.ofNat) none) ∨
    strict = true ∧ report = misfit file line (.mixedIndent indent.length
      (blocks.levels.map Int.ofNat))
  plain_iff : report.problem.category = .indentation ↔
    indent.length < blocks.width ∧ indent.length ∉ blocks.levels

variable {strict : Bool} {file : Option String} {indent : List Char} {line : Int}
  {blocks next : OpenBlocks} {shift : Shift}

theorem sound_empty (strict : Bool) : (∅ : OpenBlocks).Sound strict :=
  ⟨nested_empty, fun _ => chained_empty⟩

theorem Sound.call (h : blocks.Sound strict) (asked : BlockCall) :
    (blocks.call strict file asked).2.Sound strict := by
  cases asked with
  | close => exact sound_empty strict
  | resolve indent line =>
    simp only [OpenBlocks.call]
    cases hresolve : blocks.resolve strict indent with
    | error problem => exact h
    | ok result =>
      refine ⟨h.nested.resolve hresolve, ?_⟩
      rintro rfl
      exact (h.chained rfl).resolve hresolve

theorem Sound.aligned (h : blocks.Sound strict) : blocks.columns.Aligned strict where
  head_eq := rfl
  increasing := h.nested.isChain
  length_eq := by
    obtain ⟨hwidths, hindents⟩ := LevelColumns.length_columns blocks
    rw [hwidths, hindents]
  widths_eq := by simp [columns, levels]
  extending := by
    intro hstrict
    have hwidths : (blocks.columns.indents.map List.length).Pairwise (· < ·) := by
      have heq : blocks.columns.indents.map List.length = blocks.levels := by
        simp [columns, levels]
      rw [heq]
      exact h.nested
    have hextending : blocks.columns.indents.Pairwise (· <+: ·) :=
      List.pairwise_cons.2 ⟨fun _ _ => List.nil_prefix, List.pairwise_reverse.2 (h.chained hstrict)⟩
    refine (hextending.and (List.pairwise_map.1 hwidths)).isChain.imp ?_
    rintro outer inner ⟨hextends, hlt⟩
    exact ⟨hextends, fun heq => Nat.ne_of_lt hlt (congrArg List.length heq)⟩

theorem depth_resolve (h : blocks.resolve strict indent = .ok (next, shift)) :
    shift.change = next.depth - blocks.depth ∧ shift.change ≤ 1 := by
  obtain ⟨inner, hsplit, -, -, -, -, rfl⟩ | ⟨-, -, rfl, rfl⟩ := resolve_eq_ok h
  · have hdepth := depth_eq_of_split hsplit
    simp only [Shift.change]
    omega
  · simp only [Shift.change, depth, List.length_cons]
    omega

/-- The levels behind a line are those before it that are smaller than its width, and its width. -/
theorem Nested.levels_resolve (hn : blocks.Nested)
    (h : blocks.resolve strict indent = .ok (next, shift)) :
    next.levels = blocks.levels.filter (· < indent.length) ++ [indent.length] := by
  obtain ⟨inner, hsplit, hinner, -, hwidth, -⟩ | ⟨hwidth, -, rfl, -⟩ := resolve_eq_ok h
  · obtain ⟨front, indents, hcolumns, -⟩ := LevelColumns.columns_eq_concat next
    have hnext : next.levels = front ++ [indent.length] := by
      rw [← hwidth]
      exact congrArg LevelColumns.widths hcolumns
    have hall : blocks.levels = next.levels ++ (inner.map List.length).reverse :=
      (LevelColumns.columns_eq_append hsplit).1
    have hnested := hn.resolve h
    rw [Nested, hnext, List.pairwise_append] at hnested
    have hfront : ∀ level ∈ front, decide (level < indent.length) = true := by
      intro level hmem
      exact decide_eq_true (hnested.2.2 level hmem _ List.mem_cons_self)
    have hback : ∀ level ∈ indent.length :: (inner.map List.length).reverse,
        ¬ decide (level < indent.length) = true := by
      intro level hmem
      simp only [List.mem_cons, List.mem_reverse, List.mem_map] at hmem
      obtain rfl | ⟨inside, hinside, rfl⟩ := hmem
      · simp
      · have := hinner inside hinside
        simpa using this.le
    rw [hall, hnext, List.append_assoc, List.singleton_append, List.filter_append,
      List.filter_eq_self.2 hfront, List.filter_eq_nil_iff.2 hback, List.append_nil]
  · have hsmaller : ∀ level ∈ blocks.levels, decide (level < indent.length) = true := by
      intro level hmem
      have := hn.le_width hmem
      exact decide_eq_true (by omega)
    rw [levels_cons, List.filter_eq_self.2 hsmaller]

theorem Nested.takenIn (hn : blocks.Nested) {change : Int}
    (h : blocks.call strict file (.resolve indent line) = (.ok change, next)) :
    TakenIn strict file indent blocks next change := by
  simp only [OpenBlocks.call] at h
  cases hresolve : blocks.resolve strict indent with
  | error problem =>
    rw [hresolve] at h
    cases h
  | ok result =>
    obtain ⟨after, shift⟩ := result
    rw [hresolve] at h
    cases h
    obtain ⟨heq, hle⟩ := depth_resolve hresolve
    refine ⟨heq, hle, width_resolve hresolve, hn.levels_resolve hresolve, ?_⟩
    intro later
    simp [OpenBlocks.call, resolve_again hresolve, Shift.change]

theorem Nested.refused (hn : blocks.Nested) {report : Diagnostic}
    (h : blocks.call strict file (.resolve indent line) = (.error report, next)) :
    Refused strict file indent line blocks next report := by
  simp only [OpenBlocks.call] at h
  cases hresolve : blocks.resolve strict indent with
  | ok result =>
    rw [hresolve] at h
    cases h
  | error problem =>
    rw [hresolve] at h
    cases h
    refine ⟨rfl, ?_, ?_⟩
    · obtain rfl | ⟨hstrict, rfl⟩ := resolve_eq_error hresolve
      · exact .inl rfl
      · exact .inr ⟨hstrict, rfl⟩
    · have hiff : blocks.resolve strict indent = .error _ ↔ _ := hn.resolve_eq_unmatchedIndent_iff
      rw [← hiff, hresolve]
      obtain rfl | ⟨-, rfl⟩ := resolve_eq_error hresolve <;> simp [misfit, Problem.category]

theorem run_callAll_cons (asked : BlockCall) (calls : List BlockCall) (blocks : OpenBlocks) :
    (callAll strict file (asked :: calls)).run blocks =
      let rest := (callAll strict file calls).run (blocks.call strict file asked).2
      ((blocks.call strict file asked).1 :: rest.1, rest.2) := by
  rw [callAll, List.mapM_cons]
  rfl

theorem run_callAll_columns_cons (asked : BlockCall) (calls : List BlockCall)
    (columns : LevelColumns) :
    (LevelColumns.callAll strict file (asked :: calls)).run columns =
      let first := (LevelColumns.call strict file asked).run.run columns
      let rest := (LevelColumns.callAll strict file calls).run first.2
      (first.1 :: rest.1, rest.2) := by
  rw [LevelColumns.callAll, List.mapM_cons]
  rfl

/-- The columns keep step with the open blocks through all calls. -/
theorem run_callAll_columns (h : blocks.Sound strict) (calls : List BlockCall) :
    (LevelColumns.callAll strict file calls).run blocks.columns =
      (((callAll strict file calls).run blocks).1,
        ((callAll strict file calls).run blocks).2.columns) := by
  induction calls generalizing blocks with
  | nil => rfl
  | cons asked calls ih =>
    rw [run_callAll_columns_cons, run_callAll_cons, LevelColumns.run_call h.nested]
    simp only [ih (h.call asked)]

theorem Sound.callAll (h : blocks.Sound strict) (calls : List BlockCall) :
    ((callAll strict file calls).run blocks).2.Sound strict := by
  induction calls generalizing blocks with
  | nil => exact h
  | cons asked calls ih =>
    rw [run_callAll_cons]
    exact ih (h.call asked)

theorem gain_call (asked : BlockCall) (blocks : OpenBlocks) :
    asked.gain (blocks.call strict file asked).1 =
      (blocks.call strict file asked).2.depth - blocks.depth := by
  cases asked with
  | close =>
    have hempty : (∅ : OpenBlocks).depth = 0 := rfl
    simp [OpenBlocks.call, closeAll, BlockCall.gain, hempty]
  | resolve indent line =>
    simp only [OpenBlocks.call]
    cases hresolve : blocks.resolve strict indent with
    | error problem => simp [BlockCall.gain]
    | ok result => exact (depth_resolve hresolve).1

theorem sum_gain_callAll (strict : Bool) (file : Option String) (calls : List BlockCall)
    (blocks : OpenBlocks) :
    blocks.depth +
        (List.zipWith BlockCall.gain calls ((callAll strict file calls).run blocks).1).sum =
      ((callAll strict file calls).run blocks).2.depth := by
  induction calls generalizing blocks with
  | nil => exact Int.add_zero _
  | cons asked calls ih =>
    rw [run_callAll_cons]
    simp only [List.zipWith_cons_cons, List.sum_cons, gain_call, ← ih]
    omega

/-- Through any calls the open blocks keep their invariant, and so do the two columns: these are at
    every moment those of the blocks and give the same answers. Whatever line comes next is either
    taken in or refused, closing answers the depth and leaves only the text, and all answers
    together say how many blocks are open. -/
theorem callAll_keeps (strict : Bool) (file : Option String) (calls : List BlockCall) :
    ∃ answers blocks, (callAll strict file calls).run ∅ = (answers, blocks) ∧
      (LevelColumns.callAll strict file calls).run {} = (answers, blocks.columns) ∧
      blocks.columns.Aligned strict ∧
      (∀ asked, (LevelColumns.call strict file asked).run.run blocks.columns =
        ((blocks.call strict file asked).1, (blocks.call strict file asked).2.columns)) ∧
      (∀ indent line change next,
        blocks.call strict file (.resolve indent line) = (.ok change, next) →
          TakenIn strict file indent blocks next change) ∧
      (∀ indent line report next,
        blocks.call strict file (.resolve indent line) = (.error report, next) →
          Refused strict file indent line blocks next report) ∧
      blocks.call strict file .close = (.ok blocks.depth, ∅) ∧ (∅ : OpenBlocks).levels = [0] ∧
      (List.zipWith BlockCall.gain calls answers).sum = blocks.depth := by
  have hempty := sound_empty strict
  have hsound : Sound strict ((callAll strict file calls).run ∅).2 := hempty.callAll calls
  have hsum := sum_gain_callAll strict file calls ∅
  have hnone : ((∅ : OpenBlocks).depth : Int) = 0 := rfl
  rw [hnone, Int.zero_add] at hsum
  refine ⟨_, _, rfl, run_callAll_columns hempty calls, hsound.aligned, ?_, ?_, ?_, rfl, rfl, hsum⟩
  · exact LevelColumns.run_call hsound.nested
  · intro indent line change next h
    exact hsound.nested.takenIn h
  · intro indent line report next h
    exact hsound.nested.refused h

/-- A line between two levels is refused in the middle of some calls, and the levels stay. -/
theorem callAll_keeps_refused_line :
    ∃ answers blocks, (callAll false none [.resolve "  ".toList 1, .resolve "      ".toList 2,
        .resolve "    ".toList 3]).run ∅ = (answers, blocks) ∧
      answers = [.ok 1, .ok 1,
        .error ⟨.unmatchedIndent 4 [0, 2, 6] none, some 3, none, none⟩] ∧
      blocks.levels = [0, 2, 6] ∧ blocks.columns.Aligned false := by
  obtain ⟨answers, blocks, hrun, -, haligned, -⟩ := callAll_keeps false none
    [.resolve "  ".toList 1, .resolve "      ".toList 2, .resolve "    ".toList 3]
  have hcomputed : (callAll false none [.resolve "  ".toList 1, .resolve "      ".toList 2,
      .resolve "    ".toList 3]).run ∅ = ([.ok 1, .ok 1,
        .error ⟨.unmatchedIndent 4 [0, 2, 6] none, some 3, none, none⟩],
        ⟨["      ".toList, "  ".toList]⟩) :=
    rfl
  obtain ⟨rfl, rfl⟩ := Prod.mk.inj (hrun.symm.trans hcomputed)
  exact ⟨_, _, hrun, rfl, rfl, haligned⟩

end OpenBlocks

end Offside
