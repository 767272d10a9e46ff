import Mathlib.Data.List.TakeWhile
import Offside.Indentation

/-!
# The order of open blocks

Open blocks are nested: their widths increase from the zero of the text to the innermost
one. Where tabs and spaces must agree, they are chained as well: the indentation of each
block extends that of the block around it. What a line can do to open blocks is said once, in
`resolve_eq_ok` and `resolve_eq_error`; nesting and chains follow from that.

## Main definitions

- `Offside.OpenBlocks.Nested` — the levels increase from zero
- `Offside.OpenBlocks.Chained` — each indentation extends the one around it

## Main statements

- `Offside.OpenBlocks.resolve_eq_ok` — a line closes down to its own width or opens a block
- `Offside.OpenBlocks.Nested.resolve`, `Offside.OpenBlocks.Chained.resolve` — what a line keeps
- `Offside.OpenBlocks.resolve_again` — the same line once more changes nothing
- `Offside.OpenBlocks.Nested.resolve_loose_eq_error_iff` — when a line fits no block
- `Offside.OpenBlocks.resolve_strict_of_ok` — strictness as one condition for all lines
-/

namespace Offside

namespace OpenBlocks

/-- Every block is wider than the one around it: the levels increase from zero. -/
def Nested (blocks : OpenBlocks) : Prop :=
  blocks.levels.Pairwise (· < ·)

/-- The indentation of every block extends that of the block around it. -/
def Chained (blocks : OpenBlocks) : Prop :=
  blocks.indents.Pairwise fun inner outer => outer <+: inner

theorem mem_levels {blocks : OpenBlocks} {width : Nat} :
    width ∈ blocks.levels ↔ width = 0 ∨ ∃ indent ∈ blocks.indents, indent.length = width := by
  simp [levels]

theorem width_mem_levels (blocks : OpenBlocks) : blocks.width ∈ blocks.levels := by
  obtain ⟨indents⟩ := blocks
  cases indents with
  | nil => exact List.mem_cons_self
  | cons indent rest => exact mem_levels.2 (.inr ⟨indent, List.mem_cons_self, rfl⟩)

theorem nested_empty : (∅ : OpenBlocks).Nested :=
  List.pairwise_singleton _ _

theorem Nested.le_width {blocks : OpenBlocks} (h : blocks.Nested) {width : Nat}
    (hmem : width ∈ blocks.levels) : width ≤ blocks.width := by
  obtain ⟨indents⟩ := blocks
  cases indents with
  | nil => exact Nat.le_of_eq (List.mem_singleton.1 hmem)
  | cons indent rest =>
    rw [Nested, levels_cons, List.pairwise_append] at h
    rw [levels_cons, List.mem_append, List.mem_singleton] at hmem
    rcases hmem with hmem | rfl
    · exact Nat.le_of_lt (h.2.2 width hmem indent.length List.mem_cons_self)
    · exact Nat.le_refl _

theorem nested_cons {indent : List Char} {indents : List (List Char)} :
    (OpenBlocks.mk (indent :: indents)).Nested ↔
      (OpenBlocks.mk indents).Nested ∧ (OpenBlocks.mk indents).width < indent.length := by
  rw [Nested, levels_cons, List.pairwise_append]
  constructor
  · rintro ⟨hnested, -, hcross⟩
    exact ⟨hnested, hcross _ (width_mem_levels _) _ List.mem_cons_self⟩
  · rintro ⟨hnested, hwidth⟩
    refine ⟨hnested, List.pairwise_singleton _ _, ?_⟩
    intro level hlevel width hmem
    rw [List.mem_singleton] at hmem
    have hle := Nested.le_width hnested hlevel
    omega

theorem outer_of_lt {indent : List Char} {indents : List (List Char)} {width : Nat}
    (h : width < indent.length) :
    outer ⟨indent :: indents⟩ width = outer ⟨indents⟩ width := by
  simp [outer, h]

theorem outer_of_le {indent : List Char} {indents : List (List Char)} {width : Nat}
    (h : indent.length ≤ width) : outer ⟨indent :: indents⟩ width = ⟨indent :: indents⟩ := by
  simp [outer, Nat.not_lt.2 h]

theorem exists_inner (blocks : OpenBlocks) (width : Nat) :
    ∃ inner, blocks.indents = inner ++ (blocks.outer width).indents ∧
      ∀ indent ∈ inner, width < indent.length := by
  refine ⟨blocks.indents.takeWhile fun indent => width < indent.length, ?_, ?_⟩
  · exact List.takeWhile_append_dropWhile.symm
  · intro indent hmem
    simpa using List.mem_takeWhile_imp hmem

theorem Nested.outer {blocks : OpenBlocks} (h : blocks.Nested) (width : Nat) :
    (blocks.outer width).Nested := by
  obtain ⟨indents⟩ := blocks
  induction indents with
  | nil => exact h
  | cons indent rest ih =>
    by_cases hlt : width < indent.length
    · rw [outer_of_lt hlt]
      exact ih (nested_cons.1 h).1
    · rw [outer_of_le (Nat.not_lt.1 hlt)]
      exact h

/-- Of nested blocks just those stay open that are not wider than the line. -/
theorem Nested.mem_indents_outer {blocks : OpenBlocks} (h : blocks.Nested) {width : Nat}
    {indent : List Char} :
    indent ∈ (blocks.outer width).indents ↔ indent ∈ blocks.indents ∧ indent.length ≤ width := by
  obtain ⟨inner, hsplit, hinner⟩ := blocks.exists_inner width
  constructor
  · intro hmem
    refine ⟨(outer_indents_isSuffix blocks width).subset hmem, ?_⟩
    have hlevel := (h.outer width).le_width (mem_levels.2 (.inr ⟨indent, hmem, rfl⟩))
    exact hlevel.trans (width_outer_le blocks width)
  · rintro ⟨hmem, hle⟩
    rw [hsplit, List.mem_append] at hmem
    rcases hmem with hmem | hmem
    · exact absurd (hinner indent hmem) (Nat.not_lt.2 hle)
    · exact hmem

theorem Nested.mem_levels_outer {blocks : OpenBlocks} (h : blocks.Nested) {width level : Nat} :
    level ∈ (blocks.outer width).levels ↔ level ∈ blocks.levels ∧ level ≤ width := by
  simp only [mem_levels, h.mem_indents_outer]
  constructor
  · rintro (rfl | ⟨indent, ⟨hmem, hle⟩, rfl⟩)
    · exact ⟨.inl rfl, Nat.zero_le _⟩
    · exact ⟨.inr ⟨indent, hmem, rfl⟩, hle⟩
  · rintro ⟨rfl | ⟨indent, hmem, rfl⟩, hle⟩
    · exact .inl rfl
    · exact .inr ⟨indent, ⟨hmem, hle⟩, rfl⟩

theorem Nested.width_outer_eq_iff {blocks : OpenBlocks} (h : blocks.Nested) {width : Nat} :
    (blocks.outer width).width = width ↔ width ∈ blocks.levels := by
  constructor
  · intro heq
    have hmem := width_mem_levels (blocks.outer width)
    rw [heq] at hmem
    exact (h.mem_levels_outer.1 hmem).1
  · intro hmem
    have hlevel := (h.outer width).le_width (h.mem_levels_outer.2 ⟨hmem, Nat.le_refl width⟩)
    have hle := width_outer_le blocks width
    omega

theorem depth_sub_depth_outer_eq_zero_iff {blocks : OpenBlocks} {width : Nat} :
    blocks.depth - (blocks.outer width).depth = 0 ↔ blocks.width ≤ width := by
  obtain ⟨indents⟩ := blocks
  cases indents with
  | nil => simp [depth, OpenBlocks.width, innermost]
  | cons indent rest =>
    have hinnermost : (OpenBlocks.mk (indent :: rest)).width = indent.length := rfl
    rw [hinnermost]
    by_cases hlt : width < indent.length
    · have hsuffix := (outer_indents_isSuffix ⟨rest⟩ width).length_le
      rw [outer_of_lt hlt]
      simp only [depth, List.length_cons] at hsuffix ⊢
      omega
    · rw [outer_of_le (Nat.not_lt.1 hlt)]
      omega

section

variable {strict : Bool} {indent : List Char} {blocks next : OpenBlocks} {shift : Shift}

theorem depth_eq_of_split {inner : List (List Char)}
    (hsplit : blocks.indents = inner ++ next.indents) :
    blocks.depth = next.depth + inner.length := by
  rw [depth, hsplit, List.length_append, Nat.add_comm]
  rfl

/-- A line that fits closes the blocks that are wider, if its width is that of an open block,
    and opens a block if it is wider than all. -/
theorem resolve_eq_ok (h : blocks.resolve strict indent = .ok (next, shift)) :
    (∃ inner, blocks.indents = inner ++ next.indents ∧
      (∀ inside ∈ inner, indent.length < inside.length) ∧
      next = blocks.outer indent.length ∧ next.width = indent.length ∧
      (strict = true → next.innermost = indent) ∧ shift = .closed inner.length) ∨
    (blocks.width < indent.length ∧ (strict = true → blocks.innermost <+: indent) ∧
      next = ⟨indent :: blocks.indents⟩ ∧ shift = .opened) := by
  obtain ⟨inner, hsplit, hinner⟩ := blocks.exists_inner indent.length
  have hclosed : blocks.depth - (blocks.outer indent.length).depth = inner.length := by
    rw [depth_eq_of_split hsplit, Nat.add_sub_cancel_left]
  simp only [resolve] at h
  split at h
  · next hwidth =>
    split at h
    · cases h
    · next hstrict =>
      rw [hclosed] at h
      cases h
      refine .inl ⟨inner, hsplit, hinner, rfl, hwidth, ?_, rfl⟩
      intro hon
      by_contra hne
      exact hstrict ⟨hon, hne⟩
  · next hwidth =>
    split at h
    · cases h
    · next hdepth =>
      have hnil : inner = [] := List.length_eq_zero_iff.1 (by omega)
      have houter : blocks.outer indent.length = blocks := by
        rw [hnil] at hsplit
        exact OpenBlocks.mk.injEq _ _ ▸ hsplit.symm
      rw [houter] at h hwidth
      split at h
      · cases h
      · next hstrict =>
        cases h
        have hle := depth_sub_depth_outer_eq_zero_iff.1 (not_not.1 hdepth)
        refine .inr ⟨by omega, ?_, rfl, rfl⟩
        intro hon
        by_contra hne
        exact hstrict ⟨hon, hne⟩

theorem outer_eq_of_split {inner : List (List Char)} {width : Nat}
    (hsplit : blocks.indents = inner ++ next.indents)
    (hinner : ∀ inside ∈ inner, width < inside.length) (hle : next.width ≤ width) :
    blocks.outer width = next := by
  obtain ⟨indents⟩ := blocks
  obtain rfl : indents = inner ++ next.indents := hsplit
  induction inner with
  | nil =>
    obtain ⟨indents⟩ := next
    cases indents with
    | nil => rfl
    | cons innermost rest => exact outer_of_le hle
  | cons inside rest ih =>
    rw [List.cons_append, outer_of_lt (hinner inside List.mem_cons_self)]
    exact ih fun other hmem => hinner other (List.mem_cons_of_mem _ hmem)

/-- A line that is wider than all open blocks opens one, unless strictness keeps it from that. -/
theorem resolve_of_wider (h : blocks.width < indent.length) :
    blocks.resolve strict indent =
      if strict ∧ ¬ blocks.innermost <+: indent then
        .error (.mixedIndent indent.length (blocks.levels.map Int.ofNat))
      else .ok (⟨indent :: blocks.indents⟩, .opened) := by
  have houter : blocks.outer indent.length = blocks :=
    outer_eq_of_split (List.nil_append _).symm (by simp) (Nat.le_of_lt h)
  simp only [resolve, houter, if_neg (Nat.ne_of_lt h), Nat.sub_self, ne_eq, not_true_eq_false,
    if_false]

/-- A line that is as wide as an open block closes those inside it, unless strictness keeps it from
    that. -/
theorem resolve_of_level {inner : List (List Char)}
    (hsplit : blocks.indents = inner ++ next.indents)
    (hinner : ∀ inside ∈ inner, indent.length < inside.length)
    (hwidth : next.width = indent.length) :
    blocks.resolve strict indent =
      if strict ∧ indent ≠ next.innermost then
        .error (.mixedIndent indent.length (blocks.levels.map Int.ofNat))
      else .ok (next, .closed inner.length) := by
  have houter := outer_eq_of_split hsplit hinner (Nat.le_of_eq hwidth)
  have hdepth : blocks.depth - next.depth = inner.length := by
    rw [depth_eq_of_split hsplit, Nat.add_sub_cancel_left]
  simp only [resolve, houter, hdepth, if_pos hwidth, ne_eq, eq_comm (a := indent)]

/-- A line that repeats the indentation of an open block closes the wider ones inside it. -/
theorem resolve_of_repeats {inner : List (List Char)}
    (hsplit : blocks.indents = inner ++ next.indents)
    (hinner : ∀ inside ∈ inner, indent.length < inside.length)
    (hrepeats : next.innermost = indent) :
    blocks.resolve strict indent = .ok (next, .closed inner.length) := by
  have hwidth : next.width = indent.length := congrArg List.length hrepeats
  rw [resolve_of_level hsplit hinner hwidth]
  exact if_neg fun ⟨_, hne⟩ => hne hrepeats.symm

/-- A line that extends the indentation of the innermost block opens a block. -/
theorem resolve_of_extends (hwidth : blocks.width < indent.length)
    (hextends : blocks.innermost <+: indent) :
    blocks.resolve strict indent = .ok (⟨indent :: blocks.indents⟩, .opened) := by
  rw [resolve_of_wider hwidth]
  exact if_neg fun ⟨_, hnot⟩ => hnot hextends

theorem width_resolve (h : blocks.resolve strict indent = .ok (next, shift)) :
    next.width = indent.length := by
  obtain ⟨-, -, -, -, hwidth, -⟩ | ⟨-, -, rfl, -⟩ := resolve_eq_ok h
  · exact hwidth
  · rfl

/-- A line that fits does so once more, and then changes nothing. -/
theorem resolve_again (h : blocks.resolve strict indent = .ok (next, shift)) :
    next.resolve strict indent = .ok (next, .closed 0) := by
  have hwidth := width_resolve h
  have hrepeats : strict = true → next.innermost = indent := by
    obtain ⟨-, -, -, -, -, hrepeats, -⟩ | ⟨-, -, rfl, -⟩ := resolve_eq_ok h
    · exact hrepeats
    · exact fun _ => rfl
  rw [resolve_of_level (List.nil_append _).symm (List.forall_mem_nil _) hwidth]
  exact if_neg fun ⟨hon, hne⟩ => hne (hrepeats hon).symm

theorem Nested.resolve (hn : blocks.Nested)
    (h : blocks.resolve strict indent = .ok (next, shift)) : next.Nested := by
  obtain ⟨-, -, -, rfl, -⟩ | ⟨hwidth, -, rfl, -⟩ := resolve_eq_ok h
  · exact hn.outer _
  · exact nested_cons.2 ⟨hn, hwidth⟩

/-- The levels behind a line are those before it that are not wider, and its own. -/
theorem Nested.mem_levels_resolve (hn : blocks.Nested)
    (h : blocks.resolve strict indent = .ok (next, shift)) {level : Nat} :
    level ∈ next.levels ↔
      level = indent.length ∨ level ∈ blocks.levels ∧ level ≤ indent.length := by
  obtain ⟨-, -, -, rfl, hwidth, -⟩ | ⟨hwidth, -, rfl, -⟩ := resolve_eq_ok h
  · rw [hn.mem_levels_outer]
    constructor
    · exact .inr
    · rintro (rfl | hlevel)
      · exact ⟨hn.width_outer_eq_iff.1 hwidth, Nat.le_refl _⟩
      · exact hlevel
  · rw [levels_cons, List.mem_append, List.mem_singleton]
    constructor
    · rintro (hlevel | rfl)
      · exact .inr ⟨hlevel, (hn.le_width hlevel).trans (Nat.le_of_lt hwidth)⟩
      · exact .inl rfl
    · rintro (rfl | ⟨hlevel, -⟩)
      · exact .inr rfl
      · exact .inl hlevel

theorem innermost_mem_indents (h : blocks.innermost ≠ []) :
    blocks.innermost ∈ blocks.indents := by
  obtain ⟨indents⟩ := blocks
  cases indents with
  | nil => exact absurd rfl h
  | cons inner rest => exact List.mem_cons_self

/-- The indentations behind a line that fits strictly are those before it that are not wider,
    and its own. -/
theorem Nested.mem_indents_resolve (hn : blocks.Nested)
    (h : blocks.resolve true indent = .ok (next, shift)) {known : List Char} (hsome : known ≠ []) :
    known ∈ next.indents ↔
      known = indent ∨ known ∈ blocks.indents ∧ known.length ≤ indent.length := by
  obtain ⟨-, -, -, rfl, -, hrepeats, -⟩ | ⟨hwidth, -, rfl, -⟩ := resolve_eq_ok h
  · rw [hn.mem_indents_outer]
    constructor
    · exact .inr
    · rintro (rfl | hknown)
      · have hinnermost := hrepeats rfl
        have hmem := innermost_mem_indents (hinnermost.symm ▸ hsome)
        rw [hinnermost] at hmem
        exact hn.mem_indents_outer.1 hmem
      · exact hknown
  · rw [List.mem_cons]
    constructor
    · rintro (rfl | hmem)
      · exact .inl rfl
      · have hle := hn.le_width (mem_levels.2 (.inr ⟨known, hmem, rfl⟩))
        exact .inr ⟨hmem, by omega⟩
    · rintro (rfl | ⟨hmem, -⟩)
      · exact .inl rfl
      · exact .inr hmem

theorem resolve_eq_error {problem : Problem} (h : blocks.resolve strict indent = .error problem) :
    problem = .unmatchedIndent indent.length (blocks.levels.map Int.ofNat) none ∨
      strict = true ∧ problem = .mixedIndent indent.length (blocks.levels.map Int.ofNat) := by
  simp only [resolve] at h
  split at h
  · split at h
    · next hstrict =>
      cases h
      exact .inr ⟨hstrict.1, rfl⟩
    · cases h
  · split at h
    · cases h
      exact .inl rfl
    · split at h
      · next hstrict =>
        cases h
        exact .inr ⟨hstrict.1, rfl⟩
      · cases h

/-- A line matches no block just when it is narrower than the innermost and none of the
    others has its width. Strictness makes no difference to that. -/
theorem Nested.resolve_eq_unmatchedIndent_iff (hn : blocks.Nested) :
    blocks.resolve strict indent =
        .error (.unmatchedIndent indent.length (blocks.levels.map Int.ofNat) none) ↔
      indent.length < blocks.width ∧ indent.length ∉ blocks.levels := by
  rw [← hn.width_outer_eq_iff, ← not_le, ← depth_sub_depth_outer_eq_zero_iff]
  simp only [OpenBlocks.resolve]
  constructor
  · intro h
    split at h
    · split at h <;> cases h
    · next hwidth =>
      split at h
      · next hdepth => exact ⟨hdepth, hwidth⟩
      · split at h <;> cases h
  · rintro ⟨hdepth, hwidth⟩
    rw [if_neg hwidth, if_pos hdepth]

theorem Nested.resolve_loose_eq_error_iff (hn : blocks.Nested) {problem : Problem} :
    blocks.resolve false indent = .error problem ↔
      problem = .unmatchedIndent indent.length (blocks.levels.map Int.ofNat) none ∧
        indent.length < blocks.width ∧ indent.length ∉ blocks.levels := by
  constructor
  · intro h
    obtain rfl | ⟨hstrict, -⟩ := resolve_eq_error h
    · exact ⟨rfl, hn.resolve_eq_unmatchedIndent_iff.1 h⟩
    · cases hstrict
  · rintro ⟨rfl, h⟩
    exact hn.resolve_eq_unmatchedIndent_iff.2 h

/-- A line that matches no block is reported in the same way whether or not tabs and spaces
    must agree. -/
theorem resolve_strict_of_error {problem : Problem}
    (h : blocks.resolve false indent = .error problem) :
    blocks.resolve true indent = .error problem := by
  simp only [resolve, Bool.false_eq_true, false_and, if_false] at h ⊢
  split at h
  · cases h
  · next hwidth =>
    split at h
    · next hdepth => rw [if_neg hwidth, if_pos hdepth, h]
    · cases h

/-- Strictness adds one condition for all lines that would fit without it: the indentation
    must extend that of the innermost block that stays open. Where the two are equally wide,
    it thereby repeats it. -/
theorem resolve_strict_of_ok (h : blocks.resolve false indent = .ok (next, shift)) :
    blocks.resolve true indent =
      if (blocks.outer indent.length).innermost <+: indent then .ok (next, shift)
      else .error (.mixedIndent indent.length (blocks.levels.map Int.ofNat)) := by
  simp only [resolve, Bool.false_eq_true, false_and, if_false, true_and] at h ⊢
  split at h
  · next hwidth =>
    have hextends : (blocks.outer indent.length).innermost <+: indent ↔
        (blocks.outer indent.length).innermost = indent :=
      ⟨fun hp => hp.eq_of_length hwidth, fun heq => ⟨[], by rw [List.append_nil, heq]⟩⟩
    cases h
    simp only [if_pos hwidth, hextends, ite_not]
  · next hwidth =>
    split at h
    · cases h
    · next hdepth =>
      cases h
      rw [if_neg hwidth, if_neg hdepth, ite_not]

theorem chained_empty : (∅ : OpenBlocks).Chained :=
  List.Pairwise.nil

theorem Chained.outer (hc : blocks.Chained) (width : Nat) : (blocks.outer width).Chained :=
  List.Pairwise.sublist (outer_indents_isSuffix blocks width).sublist hc

theorem Chained.isPrefix_innermost (hc : blocks.Chained) {known : List Char}
    (hmem : known ∈ blocks.indents) : known <+: blocks.innermost := by
  obtain ⟨indents⟩ := blocks
  cases indents with
  | nil => cases hmem
  | cons inner rest =>
    rcases List.mem_cons.1 hmem with rfl | hmem
    · exact List.prefix_refl _
    · exact (List.pairwise_cons.1 hc).1 known hmem

theorem Chained.forall_isPrefix_iff (hc : blocks.Chained) {text : List Char} :
    (∀ known ∈ blocks.indents, known <+: text) ↔ blocks.innermost <+: text := by
  constructor
  · intro h
    obtain ⟨indents⟩ := blocks
    cases indents with
    | nil => exact List.nil_prefix
    | cons inner rest => exact h inner List.mem_cons_self
  · intro h known hmem
    exact (hc.isPrefix_innermost hmem).trans h

theorem Chained.resolve (hc : blocks.Chained)
    (h : blocks.resolve true indent = .ok (next, shift)) : next.Chained := by
  obtain ⟨-, -, -, rfl, -⟩ | ⟨-, hextends, rfl, -⟩ := resolve_eq_ok h
  · exact hc.outer _
  · refine List.pairwise_cons.2 ⟨?_, hc⟩
    exact hc.forall_isPrefix_iff.2 (hextends rfl)

end

end OpenBlocks

end Offside
