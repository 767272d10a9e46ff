import Mathlib.Data.List.Basic
import Offside.Proofs.Layout.History
import Offside.Proofs.Text.Front

/-!
# Lines that fit no block

Where tabs and spaces may be mixed, the only fault that an indentation can have is to come
back to a width at which no block is open. Whether a line does that can be told from the widths
of the lines before it, and the report names the levels that these lines have left open.
-/

namespace Offside

/-- A report about the indentation of the line with the given number. -/
def Diagnostic.IsIndentationAt (diagnostic : Diagnostic) (number : Nat) : Prop :=
  diagnostic.line = some (number : Int) ∧ .indentation ∈ diagnostic.problem.category.lineage

section

variable {strict : Bool} {file : Option String} {before after : List CodeLine}
  {line : CodeLine} {blocks : OpenBlocks}

/-- A line that fits no block ends the passage, and hands out nothing. -/
theorem passAll_of_resolve_eq_error {problem : Problem}
    (hbefore : (passAll strict file before ∅).outcome = .ok blocks)
    (h : blocks.resolve strict line.indent = .error problem) :
    passAll strict file (before ++ line :: after) ∅ =
      ⟨(passAll strict file before ∅).tokens,
        .error ((line.origin file).report problem)⟩ := by
  rw [passAll_append, Passage.andThen_of_ok hbefore, passAll_cons_of_error h, List.append_nil]

/-- A passage that fails at a line that fits a block fails at its content. -/
theorem category_of_resolve_eq_ok {next : OpenBlocks} {shift : OpenBlocks.Shift}
    {diagnostic : Diagnostic} (hlater : ∀ later ∈ after, line.number < later.number)
    (hbefore : (passAll strict file before ∅).outcome = .ok blocks)
    (hresolve : blocks.resolve strict line.indent = .ok (next, shift))
    (h : (passAll strict file (before ++ line :: after) ∅).outcome = .error diagnostic)
    (hline : diagnostic.line = some (line.number : Int)) :
    diagnostic.problem.category = .unrecognized := by
  rw [passAll_append, Passage.andThen_of_ok hbefore] at h
  cases hfault : line.fault? file with
  | some found =>
    rw [passAll_cons_of_fault hresolve hfault] at h
    cases h
    exact (CodeLine.category_and_line_of_fault? hfault).1
  | none =>
    rw [passAll_cons_of_ok hresolve hfault] at h
    obtain ⟨later, hmem, heq⟩ := exists_line_of_outcome_error h
    have hlt := hlater later hmem
    rw [hline, Option.some.injEq] at heq
    omega

end

section

variable {text : String} {file : Option String} {options : Options} {tokens : List Token}
  {before after : List CodeLine} {line : CodeLine}

/-- The tokens of the text in front of a line, without those for its end, are the passage over
    the lines in front. -/
theorem tokensBefore_of_tokenize_textBefore (hlines : codeLines text = before ++ line :: after)
    (hfront : tokenize (textBefore line.number text) file options = .ok tokens) :
    (∃ blocks, (passAll options.isStrict file before ∅).outcome = .ok blocks) ∧
      tokensBefore line.number tokens = (passAll options.isStrict file before ∅).tokens := by
  obtain ⟨blocks, hbefore, htokens⟩ := tokenize_eq_ok_iff.1 hfront
  rw [codeLines_textBefore hlines] at hbefore htokens
  rw [length_split_textBefore hlines] at htokens
  refine ⟨⟨blocks, hbefore⟩, ?_⟩
  rw [htokens]
  refine tokensBefore_append_of_lt ?_ ?_
  · intro token hmem
    exact line_lt_of_mem_passAll (number_lt_of_codeLines_eq hlines).1 hmem
  · intro token hmem
    rw [line_closingTokens hmem]
    exact Int.lt_irrefl _

/-- Where tabs and spaces may be mixed and the lines in front raise no problem, the indentation
    of a line is reported just when the line is narrower than the line before, has some width,
    and no line of its width is in force. The report then names the levels that the lines in
    front have left open, and the line hands out nothing. -/
theorem unindent_fails_iff (hloose : options.isStrict = false)
    (hlines : codeLines text = before ++ line :: after)
    (hfront : tokenize (textBefore line.number text) file options = .ok tokens) :
    ((∃ diagnostic, tokenize text file options = .error diagnostic ∧
        diagnostic.IsIndentationAt line.number) ↔
      line.width < lastWidth before ∧ line.width ≠ 0 ∧
        ¬ ∃ earlier, InForce before earlier ∧ earlier.width = line.width) ∧
    ∀ diagnostic, tokenize text file options = .error diagnostic →
      diagnostic.IsIndentationAt line.number →
        (∃ levels, OpenLevels before levels ∧
          diagnostic = ⟨.unmatchedIndent line.width (levels.map Int.ofNat) none,
            some line.number, none, file⟩) ∧
        (Lexer.ofText text file options).run.tokens = tokensBefore line.number tokens := by
  obtain ⟨⟨blocks, hbefore⟩, htokens⟩ := tokensBefore_of_tokenize_textBefore hlines hfront
  have hrecords := records_nil.passAll hbefore
  -- Were the line to fit a block, a report at it would be about its content.
  have herror : ∀ diagnostic, tokenize text file options = .error diagnostic →
      diagnostic.IsIndentationAt line.number →
        ∃ problem, blocks.resolve options.isStrict line.indent = .error problem := by
    intro diagnostic hfail hindentation
    cases hresolve : blocks.resolve options.isStrict line.indent with
    | error problem => exact ⟨problem, rfl⟩
    | ok result =>
      rw [tokenize_eq_error_iff, hlines] at hfail
      have hcategory := category_of_resolve_eq_ok (number_lt_of_codeLines_eq hlines).2 hbefore
        hresolve hfail hindentation.1
      have hlineage := hindentation.2
      rw [hcategory] at hlineage
      simp [Category.lineage] at hlineage
  have hpassage : ∀ problem, blocks.resolve options.isStrict line.indent = .error problem →
      passAll options.isStrict file (codeLines text) ∅ =
        ⟨tokensBefore line.number tokens, .error ((line.origin file).report problem)⟩ := by
    intro problem hresolve
    rw [hlines, passAll_of_resolve_eq_error hbefore hresolve, htokens]
  refine ⟨⟨?_, ?_⟩, ?_⟩
  · rintro ⟨diagnostic, hfail, hindentation⟩
    obtain ⟨problem, hresolve⟩ := herror diagnostic hfail hindentation
    rw [hloose] at hresolve
    exact (hrecords.resolve_loose_eq_error_iff.1 hresolve).2
  · intro hcondition
    have hresolve := hrecords.resolve_loose_eq_error_iff.2 ⟨rfl, hcondition⟩
    rw [← hloose] at hresolve
    refine ⟨_, tokenize_eq_error_iff.2 (congrArg Passage.outcome (hpassage _ hresolve)), rfl, ?_⟩
    exact List.mem_cons_self
  · intro diagnostic hfail hindentation
    obtain ⟨problem, hresolve⟩ := herror diagnostic hfail hindentation
    have hall := hpassage problem hresolve
    have hreport := tokenize_eq_error_iff.1 hfail
    rw [hall] at hreport
    cases hreport
    rw [hloose] at hresolve
    obtain ⟨rfl, -⟩ := hrecords.resolve_loose_eq_error_iff.1 hresolve
    refine ⟨⟨blocks.levels, hrecords.openLevels, rfl⟩, ?_⟩
    have hstream := stream_ofText text file options
    rw [hall, Passage.close_of_error rfl] at hstream
    exact congrArg Stream.tokens hstream

theorem unindent_fails_between_levels :
    ∃ tokens levels, tokenize "a\n  b\n    c\n" = .ok tokens ∧
      OpenLevels [⟨1, [], ['a']⟩, ⟨2, "  ".toList, ['b']⟩, ⟨3, "    ".toList, ['c']⟩] levels ∧
      tokenize "a\n  b\n    c\n   d\ne\n" =
        .error ⟨.unmatchedIndent 3 (levels.map Int.ofNat) none, some 4, none, none⟩ ∧
      (Lexer.ofText "a\n  b\n    c\n   d\ne\n").run.tokens = tokensBefore 4 tokens := by
  obtain ⟨tokens, hfront⟩ : ∃ tokens,
      tokenize (textBefore 4 "a\n  b\n    c\n   d\ne\n") = .ok tokens :=
    exists_tokenize_eq_ok (by decide +kernel)
  have hlines : codeLines "a\n  b\n    c\n   d\ne\n" =
      [⟨1, [], ['a']⟩, ⟨2, "  ".toList, ['b']⟩, ⟨3, "    ".toList, ['c']⟩] ++
        ⟨4, "   ".toList, ['d']⟩ :: [⟨5, [], ['e']⟩] := by
    decide +kernel
  obtain ⟨hfails, hreport⟩ := unindent_fails_iff rfl hlines hfront
  obtain ⟨diagnostic, hfail, hindentation⟩ := hfails.2 <| by
    refine ⟨by decide, by decide, ?_⟩
    rintro ⟨earlier, hforce, hwidth⟩
    have hother : ∀ line ∈ [⟨1, [], ['a']⟩, ⟨2, "  ".toList, ['b']⟩, ⟨3, "    ".toList, ['c']⟩],
        CodeLine.width line ≠ 3 := by
      decide
    exact hother earlier hforce.mem hwidth
  obtain ⟨⟨levels, hlevels, rfl⟩, htokens⟩ := hreport diagnostic hfail hindentation
  have htext : textBefore 4 "a\n  b\n    c\n   d\ne\n" = "a\n  b\n    c\n" := by
    decide +kernel
  rw [htext] at hfront
  exact ⟨tokens, levels, hfront, hlevels, hfail, htokens⟩

end

end Offside
