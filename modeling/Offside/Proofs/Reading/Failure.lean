import Offside.Proofs.Content.Faults
import Offside.Proofs.Reading.Passage

/-!
# When a reading fails

The content of a line is read up to its first faulty position, and to its end if there is none.
The indentations of the lines are held against the open blocks apart from that, so a text fails
just when one of its lines fits no block or has a faulty position behind its indentation.
-/

namespace Offside

/-- How the content of a line is read from a position on. It fails just when there is a faulty
    position; then the first of them is reported, and the tokens cover what is in front of it. If
    there is none the end of the line is reached. -/
structure ReadsUpToFault (lexer : Lexer) (text : List Char) (start : Nat) : Prop where
  fails_iff : (∃ diagnostic, (lexer.readContent text start).ending = .failed diagnostic) ↔
    ∃ position, FaultyAt text start position
  failed : ∀ position, FirstFaulty text start position → ∃ c, text[position]? = some c ∧
    (lexer.readContent text start).ending = .failed ⟨.unrecognized (String.singleton c),
      some lexer.line, some (position + 1 : Nat), lexer.file⟩ ∧
    ∃ gap, AllBlank gap ∧ Covers (start + 1) ((text.take position).drop start)
      (lexer.readContent text start).tokens gap
  finished : (∀ position, ¬ FaultyAt text start position) →
    (lexer.readContent text start).ending = .finished ∧
      ∃ front, (lexer.readContent text start).tokens =
        front ++ [lexer.origin.mark .newline (text.length + 1)]

theorem ending_readContent (lexer : Lexer) (text : List Char) (start : Nat) :
    (lexer.readContent text start).ending =
      ((Content.ofLine text start).fault.map fun fault =>
        Ending.failed (fault.diagnostic lexer.origin)).getD .finished := by
  rw [Lexer.readContent, Content.problem?, Option.map_map]
  rfl

/-- The tokens in front of a fault cover the text up to it, but for blanks. -/
theorem covers_front_of_fault {text : List Char} {start behind : Nat} {fault : Fault}
    (origin : Origin) (hfault : (Content.ofLine text start).fault = some fault)
    (hcolumn : fault.column = start + 1 + behind) :
    ∃ gap, AllBlank gap ∧ Covers (start + 1) ((text.take (start + behind)).drop start)
      ((Content.ofLine text start).lexemes.map (·.token origin)) gap := by
  obtain ⟨rest, hcovers, hleft⟩ :=
    Content.exists_covers_read origin (start + 1) (text.drop start)
  rw [Content.LeavesOver, ← Content.ofLine, hfault] at hleft
  obtain ⟨gap, back, rfl, hgap, hend⟩ := hleft
  obtain ⟨front, hsplit, hfront⟩ := hcovers.exists_front
  have hlength : front.length = behind := by
    have hall := congrArg List.length hsplit
    rw [List.length_append, List.length_cons] at hall
    omega
  refine ⟨gap, hgap, ?_⟩
  rwa [List.drop_take, Nat.add_sub_cancel_left, hsplit, ← hlength, List.take_left]

theorem readsUpToFault_of_fault {lexer : Lexer} {text : List Char} {start : Nat} {fault : Fault}
    (hfault : (Content.ofLine text start).fault = some fault) :
    ReadsUpToFault lexer text start := by
  have hfirst := Content.isFirstFault_read (start + 1) (text.drop start)
  rw [← Content.ofLine, hfault] at hfirst
  obtain ⟨behind, hfirst, hcolumn, hcharacter⟩ := hfirst
  have hposition := hfirst.of_drop
  have hending := ending_readContent lexer text start
  rw [hfault, Option.map_some, Option.getD_some] at hending
  refine ⟨⟨fun _ => ⟨_, hposition.faultyAt⟩, fun _ => ⟨_, hending⟩⟩, ?_, ?_⟩
  · intro position hother
    obtain rfl := hother.unique hposition
    rw [List.getElem?_drop] at hcharacter
    refine ⟨fault.character, hcharacter, ?_, ?_⟩
    · have hreported : fault.column = start + behind + 1 := by omega
      rw [hending, Fault.diagnostic, Origin.report, hreported]
      rfl
    · rw [tokens_readContent, Content.tokens, hfault, Option.isSome_some, if_pos rfl,
        List.append_nil]
      exact covers_front_of_fault lexer.origin hfault hcolumn
  · intro hnone
    exact absurd hposition.faultyAt (hnone _)

theorem readsUpToFault_of_finished {lexer : Lexer} {text : List Char} {start : Nat}
    (hfault : (Content.ofLine text start).fault = none) :
    ReadsUpToFault lexer text start := by
  have hfirst := Content.isFirstFault_read (start + 1) (text.drop start)
  rw [← Content.ofLine, hfault] at hfirst
  have hnone : ∀ position, ¬ FaultyAt text start position := by
    intro position hfaulty
    obtain ⟨behind, -, hbehind⟩ := faultyAt_iff_drop.1 hfaulty
    exact hfirst behind hbehind
  have hending := ending_readContent lexer text start
  rw [hfault, Option.map_none, Option.getD_none] at hending
  refine ⟨⟨?_, ?_⟩, ?_, ?_⟩
  · rintro ⟨diagnostic, hfailed⟩
    rw [hending] at hfailed
    cases hfailed
  · rintro ⟨position, hfaulty⟩
    exact absurd hfaulty (hnone position)
  · intro position hposition
    exact absurd hposition.faultyAt (hnone position)
  · intro _
    refine ⟨hending, (Content.ofLine text start).lexemes.map (·.token lexer.origin), ?_⟩
    rw [tokens_readContent, Content.tokens, hfault]
    rfl

theorem readsUpToFault (lexer : Lexer) (text : List Char) (start : Nat) :
    ReadsUpToFault lexer text start := by
  cases hfault : (Content.ofLine text start).fault with
  | none => exact readsUpToFault_of_finished hfault
  | some fault => exact readsUpToFault_of_fault hfault

/-- The blocks that the indentations of some lines leave open, if every line fits. -/
def settle (strict : Bool) : List CodeLine → OpenBlocks → Except Problem OpenBlocks
  | [], blocks => .ok blocks
  | line :: rest, blocks =>
    match blocks.resolve strict line.indent with
    | .error problem => .error problem
    | .ok (next, _) => settle strict rest next

/-- A line that fits no block of those that the lines in front of it leave open. -/
def Rejected (strict : Bool) (before : List CodeLine) (line : CodeLine) : Prop :=
  ∃ blocks problem, settle strict before ∅ = .ok blocks ∧
    blocks.resolve strict line.indent = .error problem

section

variable {strict : Bool} {file : Option String} {lines : List CodeLine}
  {blocks last : OpenBlocks}

/-- A passage goes well just when all indentations fit and no content has a fault. -/
theorem outcome_passAll_eq_ok_iff :
    (passAll strict file lines blocks).outcome = .ok last ↔
      settle strict lines blocks = .ok last ∧ ∀ line ∈ lines, line.content.fault = none := by
  induction lines generalizing blocks with
  | nil => simp [passAll, settle]
  | cons line rest ih =>
    cases hresolve : blocks.resolve strict line.indent with
    | error problem => simp [passAll_cons_of_error hresolve, settle, hresolve]
    | ok result =>
      obtain ⟨next, shift⟩ := result
      cases hfault : line.content.fault with
      | some fault =>
        simp [passAll_cons_of_fault hresolve (CodeLine.fault?_of_fault hfault), hfault]
      | none =>
        have hnone := (@CodeLine.fault?_eq_none_iff file line).2 hfault
        simp [passAll_cons_of_ok hresolve hnone, settle, hresolve, hfault, ih]

theorem exists_rejected_iff :
    (∃ problem, settle strict lines blocks = .error problem) ↔
      ∃ before line after, lines = before ++ line :: after ∧ ∃ middle problem,
        settle strict before blocks = .ok middle ∧
          middle.resolve strict line.indent = .error problem := by
  induction lines generalizing blocks with
  | nil => simp [settle]
  | cons line rest ih =>
    cases hresolve : blocks.resolve strict line.indent with
    | error problem =>
      simp only [settle, hresolve, Except.error.injEq, exists_eq', true_iff]
      exact ⟨[], line, rest, rfl, blocks, problem, rfl, hresolve⟩
    | ok result =>
      obtain ⟨next, shift⟩ := result
      simp only [settle, hresolve, ih]
      constructor
      · rintro ⟨before, found, after, rfl, middle, problem, hbefore, hfound⟩
        refine ⟨line :: before, found, after, rfl, middle, problem, ?_, hfound⟩
        simp only [settle, hresolve, hbefore]
      · rintro ⟨before, found, after, hlines, middle, problem, hbefore, hfound⟩
        cases before with
        | nil =>
          cases hlines
          cases hbefore
          rw [hresolve] at hfound
          cases hfound
        | cons head before =>
          cases hlines
          simp only [settle, hresolve] at hbefore
          exact ⟨before, found, after, rfl, middle, problem, hbefore, hfound⟩

end

/-- The content of a line has a fault just when a position behind the indentation is faulty. -/
theorem CodeLine.fault_content_eq_none_iff (line : CodeLine) :
    line.content.fault = none ↔
      ¬ ∃ position, FaultyAt (line.indent ++ line.body) line.width position := by
  have hdrop : (line.indent ++ line.body).drop line.width = line.body := List.drop_left
  have hfirst := Content.isFirstFault_read (line.width + 1) line.body
  rw [← CodeLine.content] at hfirst
  cases hfault : line.content.fault with
  | none =>
    rw [hfault] at hfirst
    refine ⟨fun _ => ?_, fun _ => rfl⟩
    rintro ⟨position, hfaulty⟩
    obtain ⟨behind, -, hbehind⟩ := faultyAt_iff_drop.1 hfaulty
    rw [hdrop] at hbehind
    exact hfirst behind hbehind
  | some fault =>
    rw [hfault, ← hdrop] at hfirst
    obtain ⟨behind, hfirst, -⟩ := hfirst
    constructor
    · intro hnone
      cases hnone
    · intro hnone
      exact absurd ⟨_, hfirst.of_drop.faultyAt⟩ hnone

theorem exists_outcome_eq_error_iff {strict : Bool} {file : Option String}
    {lines : List CodeLine} :
    (∃ diagnostic, (passAll strict file lines ∅).outcome = .error diagnostic) ↔
      ∃ before line after, lines = before ++ line :: after ∧
        (Rejected strict before line ∨ line.content.fault ≠ none) := by
  constructor
  · rintro ⟨diagnostic, herror⟩
    cases hsettle : settle strict lines ∅ with
    | error problem =>
      obtain ⟨before, line, after, rfl, hrejected⟩ := exists_rejected_iff.1 ⟨problem, hsettle⟩
      exact ⟨before, line, after, rfl, .inl hrejected⟩
    | ok last =>
      by_contra hnone
      have hfault : ∀ line ∈ lines, line.content.fault = none := by
        intro line hmem
        obtain ⟨before, after, rfl⟩ := List.append_of_mem hmem
        by_contra hfault
        exact hnone ⟨before, line, after, rfl, .inr hfault⟩
      rw [outcome_passAll_eq_ok_iff.2 ⟨hsettle, hfault⟩] at herror
      cases herror
  · rintro ⟨before, line, after, rfl, hfails⟩
    cases houtcome : (passAll strict file (before ++ line :: after) ∅).outcome with
    | error diagnostic => exact ⟨diagnostic, rfl⟩
    | ok last =>
      obtain ⟨hsettle, hfault⟩ := outcome_passAll_eq_ok_iff.1 houtcome
      rcases hfails with hrejected | hfaulty
      · obtain ⟨problem, herror⟩ := exists_rejected_iff.2 ⟨before, line, after, rfl, hrejected⟩
        rw [hsettle] at herror
        cases herror
      · exact absurd (hfault line (by simp)) hfaulty

/-- The content of a line is read up to its first faulty position, and a text fails just when one
    of its lines is rejected for its indentation or has a faulty position behind it. -/
theorem fails_iff_faulty :
    (∀ (lexer : Lexer) (text : List Char) (start : Nat), ReadsUpToFault lexer text start) ∧
      ∀ (text : String) (file : Option String) (options : Options),
        (∃ diagnostic, tokenize text file options = .error diagnostic) ↔
          ∃ before line after, codeLines text = before ++ line :: after ∧
            (Rejected options.isStrict before line ∨
              ∃ position, FaultyAt (line.indent ++ line.body) line.width position) := by
  refine ⟨readsUpToFault, ?_⟩
  intro text file options
  simp only [tokenize_eq_error_iff, exists_outcome_eq_error_iff, ne_eq,
    CodeLine.fault_content_eq_none_iff, not_not]

theorem fails_iff_faulty_question_mark :
    ∃ diagnostic, tokenize "a\n  b ?" = .error diagnostic := by
  have hlines : codeLines "a\n  b ?" =
      [⟨1, [], ['a']⟩] ++ ⟨2, [' ', ' '], ['b', ' ', '?']⟩ :: [] := by
    decide +kernel
  have hfaulty : FaultyAt [' ', ' ', 'b', ' ', '?'] 2 4 :=
    ⟨by decide, by decide, .inl (by decide)⟩
  exact (fails_iff_faulty.2 _ none {}).2 ⟨_, _, _, hlines, .inr ⟨4, hfaulty⟩⟩

end Offside
