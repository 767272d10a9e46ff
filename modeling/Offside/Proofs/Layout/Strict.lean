import Mathlib.Data.List.Basic
import Mathlib.Data.List.Induction
import Offside.Proofs.Layout.Unindent

/-!
# Strict indentation

Where tabs and spaces must agree, a line is held against the indentation of an open block in
three places, and the three checks come to one condition on the lines: a line is inconsistent
when it does not begin with the indentation of some earlier line that is still in force. Up to
the first such line a strict reading is the loose one, and there it fails.
-/

namespace Offside

/-- A line is inconsistent with the lines in front of it when one of them would stay in force
    but its indentation does not begin the line. -/
def Inconsistent (before : List CodeLine) (line : CodeLine) : Prop :=
  ∃ opener, InForce before opener ∧ opener.width ≤ line.width ∧ ¬ opener.indent <+: line.indent

/-- No line of these is inconsistent with the history and the lines in front of it. -/
def Consistent (history lines : List CodeLine) : Prop :=
  ∀ before line after, lines = before ++ line :: after → ¬ Inconsistent (history ++ before) line

/-- The first inconsistent line of some lines, between those in front of it and those behind. -/
structure FirstInconsistent (lines before : List CodeLine) (line : CodeLine)
    (after : List CodeLine) : Prop where
  lines_eq : lines = before ++ line :: after
  consistent : Consistent [] before
  inconsistent : Inconsistent before line

/-- A report in front of a line, or a plain one about its indentation. -/
def Diagnostic.IsShortOf (diagnostic : Diagnostic) (line : CodeLine) : Prop :=
  ∃ number, diagnostic.line = some number ∧ (number < line.number ∨
    number = line.number ∧ diagnostic.problem.category = .indentation)

/-- A reading stops short of a line when it fails in front of it, or at its indentation for
    another reason than tabs and spaces. -/
def Ending.StopsShort (ending : Ending) (line : CodeLine) : Prop :=
  ∃ diagnostic, ending = .failed diagnostic ∧ diagnostic.IsShortOf line

theorem consistent_nil (history : List CodeLine) : Consistent history [] := by
  intro before line after hsplit
  cases before <;> cases hsplit

theorem consistent_cons {history rest : List CodeLine} {line : CodeLine} :
    Consistent history (line :: rest) ↔
      ¬ Inconsistent history line ∧ Consistent (history ++ [line]) rest := by
  constructor
  · intro h
    refine ⟨?_, ?_⟩
    · have hline := h [] line rest rfl
      rwa [List.append_nil] at hline
    · intro before later after hsplit
      have hlater := h (line :: before) later after (by rw [hsplit]; rfl)
      rwa [List.append_assoc, List.singleton_append]
  · rintro ⟨hline, hrest⟩ before later after hsplit
    cases before with
    | nil =>
      obtain ⟨rfl, rfl⟩ := List.cons.inj hsplit
      rwa [List.append_nil]
    | cons head front =>
      obtain ⟨rfl, htail⟩ := List.cons.inj hsplit
      have hlater := hrest front later after htail
      rwa [List.append_assoc, List.singleton_append] at hlater

/-- Either no line is inconsistent, or one of those that are is the first. The induction is from
    the end, as the first inconsistent line of a beginning stays the first. -/
theorem consistent_or_exists_first (lines : List CodeLine) :
    Consistent [] lines ∨ ∃ before line after, FirstInconsistent lines before line after := by
  induction lines using List.reverseRecOn with
  | nil => exact .inl (consistent_nil [])
  | append_singleton front last ih =>
    obtain hfront | ⟨before, line, after, rfl, hbefore, hline⟩ := ih
    · by_cases hlast : Inconsistent front last
      · exact .inr ⟨front, last, [], rfl, hfront, hlast⟩
      · refine .inl ?_
        intro before line after hsplit
        obtain rfl | ⟨middle, final, rfl⟩ := after.eq_nil_or_concat'
        · obtain ⟨rfl, heq⟩ := List.append_inj' hsplit rfl
          obtain rfl := (List.cons.inj heq).1
          exact hlast
        · have hsplit' : front ++ [last] = (before ++ line :: middle) ++ [final] := by
            rw [hsplit, List.append_assoc, List.cons_append]
          obtain ⟨hshort, -⟩ := List.append_inj' hsplit' rfl
          exact hfront before line middle hshort
    · refine .inr ⟨before, line, after ++ [last], ?_, hbefore, hline⟩
      rw [List.append_assoc, List.cons_append]

/-- Blocks that a strict reading has open behind a history: each indentation extends the one
    around it, and they are those of the lines in force. -/
structure StrictRecords (history : List CodeLine) (blocks : OpenBlocks) : Prop where
  records : Records history blocks
  chained : blocks.Chained
  mem_indents_iff : ∀ indent, indent ≠ [] →
    (indent ∈ blocks.indents ↔ ∃ opener, InForce history opener ∧ opener.indent = indent)

theorem strictRecords_nil : StrictRecords [] ∅ where
  records := records_nil
  chained := OpenBlocks.chained_empty
  mem_indents_iff := by
    intro indent _
    constructor
    · intro hmem
      cases hmem
    · rintro ⟨opener, hforce, -⟩
      exact absurd hforce (not_inForce_nil opener)

section

variable {file : Option String} {history lines : List CodeLine} {line : CodeLine}
  {blocks next last : OpenBlocks} {shift : OpenBlocks.Shift}

/-- One comparison finds inconsistent lines: that with the innermost block that stays open. As
    the indentations are chained, it stands for those with all lines in force. -/
theorem StrictRecords.inconsistent_iff (h : StrictRecords history blocks) :
    Inconsistent history line ↔ ¬ (blocks.outer line.width).innermost <+: line.indent := by
  constructor
  · rintro ⟨opener, hforce, hle, hnot⟩ hextends
    have hsome : opener.indent ≠ [] := fun heq => hnot (heq ▸ List.nil_prefix)
    have hmem := (h.mem_indents_iff _ hsome).2 ⟨opener, hforce, rfl⟩
    have houter := h.records.nested.mem_indents_outer.2 ⟨hmem, hle⟩
    exact hnot (((h.chained.outer _).isPrefix_innermost houter).trans hextends)
  · intro hnot
    have hsome : (blocks.outer line.width).innermost ≠ [] := fun heq => hnot (heq ▸ List.nil_prefix)
    have houter := OpenBlocks.innermost_mem_indents hsome
    obtain ⟨hmem, hle⟩ := h.records.nested.mem_indents_outer.1 houter
    obtain ⟨opener, hforce, heq⟩ := (h.mem_indents_iff _ hsome).1 hmem
    rw [← heq] at hle hnot
    exact ⟨opener, hforce, hle, hnot⟩

theorem StrictRecords.resolve_of_consistent (h : StrictRecords history blocks)
    (hloose : blocks.resolve false line.indent = .ok (next, shift))
    (hline : ¬ Inconsistent history line) :
    blocks.resolve true line.indent = .ok (next, shift) :=
  (OpenBlocks.resolve_strict_of_ok hloose).trans
    (if_pos (not_not.1 (mt h.inconsistent_iff.2 hline)))

theorem StrictRecords.resolve_of_inconsistent (h : StrictRecords history blocks)
    (hloose : blocks.resolve false line.indent = .ok (next, shift))
    (hline : Inconsistent history line) :
    blocks.resolve true line.indent =
      .error (.mixedIndent line.width (blocks.levels.map Int.ofNat)) :=
  (OpenBlocks.resolve_strict_of_ok hloose).trans (if_neg (h.inconsistent_iff.1 hline))

theorem StrictRecords.resolve (h : StrictRecords history blocks)
    (hok : blocks.resolve true line.indent = .ok (next, shift)) :
    StrictRecords (history ++ [line]) next where
  records := h.records.resolve hok
  chained := h.chained.resolve hok
  mem_indents_iff := by
    intro indent hsome
    rw [h.records.nested.mem_indents_resolve hok hsome, h.mem_indents_iff indent hsome]
    simp only [inForce_concat]
    constructor
    · rintro (rfl | ⟨⟨opener, hforce, rfl⟩, hle⟩)
      · exact ⟨line, .inl rfl, rfl⟩
      · exact ⟨opener, .inr ⟨hforce, hle⟩, rfl⟩
    · rintro ⟨opener, rfl | ⟨hforce, hle⟩, rfl⟩
      · exact .inl rfl
      · exact .inr ⟨⟨opener, hforce, rfl⟩, hle⟩

theorem StrictRecords.passAll (h : StrictRecords history blocks)
    (hok : (passAll true file lines blocks).outcome = .ok last) :
    StrictRecords (history ++ lines) last :=
  passAll_invariant (fun _ _ _ _ _ hrecords hresolve => hrecords.resolve hresolve) h hok

/-- Among consistent lines strictness makes no difference. -/
theorem passAll_strict_of_consistent (h : StrictRecords history blocks)
    (hconsistent : Consistent history lines) :
    passAll true file lines blocks = passAll false file lines blocks := by
  induction lines generalizing history blocks with
  | nil => rfl
  | cons line rest ih =>
    obtain ⟨hline, hrest⟩ := consistent_cons.1 hconsistent
    cases hloose : blocks.resolve false line.indent with
    | error problem =>
      have hstrict := OpenBlocks.resolve_strict_of_error hloose
      rw [passAll_cons_of_error hloose, passAll_cons_of_error hstrict]
    | ok result =>
      obtain ⟨next, shift⟩ := result
      have hstrict := h.resolve_of_consistent hloose hline
      cases hfault : line.fault? file with
      | some diagnostic =>
        rw [passAll_cons_of_fault hloose hfault, passAll_cons_of_fault hstrict hfault]
      | none =>
        rw [passAll_cons_of_ok hloose hfault, passAll_cons_of_ok hstrict hfault,
          ih (h.resolve hstrict) hrest]

/-- A strict passage over lines of which one is the first inconsistent one is the loose passage
    if that stops short of the line. If not, it ends in front of the line. -/
theorem FirstInconsistent.passAll_cases {before after : List CodeLine}
    (h : FirstInconsistent lines before line after) (file : Option String)
    (hearlier : ∀ earlier ∈ before, earlier.number < line.number) :
    (passAll true file lines ∅ = passAll false file lines ∅ ∧
      ∃ diagnostic, (passAll false file lines ∅).outcome = .error diagnostic ∧
        diagnostic.IsShortOf line) ∨
    ∃ blocks next shift, (passAll false file before ∅).outcome = .ok blocks ∧
      Records before blocks ∧ blocks.resolve false line.indent = .ok (next, shift) ∧
      passAll true file lines ∅ = ⟨(passAll false file before ∅).tokens,
        .error ((line.origin file).report
          (.mixedIndent line.width (blocks.levels.map Int.ofNat)))⟩ := by
  obtain ⟨rfl, hbefore, hline⟩ := h
  have hfront : passAll true file before ∅ = passAll false file before ∅ :=
    passAll_strict_of_consistent strictRecords_nil hbefore
  cases houtcome : (passAll false file before ∅).outcome with
  | error diagnostic =>
    left
    obtain ⟨earlier, hmem, hnumber⟩ := exists_line_of_outcome_error houtcome
    rw [passAll_append, passAll_append, hfront, Passage.andThen_of_error houtcome,
      Passage.andThen_of_error houtcome]
    refine ⟨rfl, diagnostic, houtcome, _, hnumber, .inl ?_⟩
    exact Int.ofNat_lt.2 (hearlier earlier hmem)
  | ok blocks =>
    have hstrict := hfront ▸ houtcome
    have hrecords := strictRecords_nil.passAll hstrict
    cases hloose : blocks.resolve false line.indent with
    | error problem =>
      left
      obtain ⟨rfl, -⟩ := hrecords.records.resolve_loose_eq_error_iff.1 hloose
      rw [passAll_of_resolve_eq_error houtcome hloose,
        passAll_of_resolve_eq_error hstrict (OpenBlocks.resolve_strict_of_error hloose), hfront]
      exact ⟨rfl, _, rfl, _, rfl, .inr ⟨rfl, rfl⟩⟩
    | ok result =>
      obtain ⟨next, shift⟩ := result
      refine .inr ⟨blocks, next, shift, rfl, hrecords.records, hloose, ?_⟩
      rw [passAll_of_resolve_eq_error hstrict (hrecords.resolve_of_inconsistent hloose hline),
        hfront]

end

section

variable {text : String} {file : Option String} {strict loose : Options}

theorem not_stopsShort {before after : List CodeLine} {line : CodeLine}
    {blocks next : OpenBlocks} {shift : OpenBlocks.Shift} (hloose : loose.isStrict = false)
    (hlines : codeLines text = before ++ line :: after)
    (hbefore : (passAll false file before ∅).outcome = .ok blocks)
    (hresolve : blocks.resolve false line.indent = .ok (next, shift)) :
    ¬ (Lexer.ofText text file loose).run.ending.StopsShort line := by
  obtain ⟨-, hlater⟩ := number_lt_of_codeLines_eq hlines
  rintro ⟨diagnostic, hending, number, hnumber, hshort⟩
  have hfail : tokenize text file loose = .error diagnostic := by rw [tokenize, hending]
  rw [tokenize_eq_error_iff, hlines, hloose] at hfail
  obtain hlt | ⟨rfl, hcategory⟩ := hshort
  · rw [passAll_append, Passage.andThen_of_ok hbefore] at hfail
    obtain ⟨found, hmem, hfound⟩ := exists_line_of_outcome_error hfail
    rw [hnumber, Option.some.injEq] at hfound
    obtain rfl | hmem := List.mem_cons.1 hmem
    · omega
    · have := hlater found hmem
      omega
  · have hcontent := category_of_resolve_eq_ok hlater hbefore hresolve hfail hnumber
    rw [hcategory] at hcontent
    cases hcontent

/-- The tokens in front of a line up to which a reading gets are the passage over the lines in
    front. -/
theorem tokensBefore_tokens_run {options : Options} {before after : List CodeLine}
    {line : CodeLine} {blocks : OpenBlocks} (hlines : codeLines text = before ++ line :: after)
    (hbefore : (passAll options.isStrict file before ∅).outcome = .ok blocks) :
    tokensBefore line.number (Lexer.ofText text file options).run.tokens =
      (passAll options.isStrict file before ∅).tokens := by
  obtain ⟨hearlier, hlater⟩ := number_lt_of_codeLines_eq hlines
  have hstream := stream_ofText text file options
  rw [hlines, passAll_append, Passage.close_andThen_of_ok hbefore] at hstream
  have htokens : (Lexer.ofText text file options).run.tokens = _ := congrArg Stream.tokens hstream
  rw [htokens]
  have hnotEarlier : ∀ found ∈ line :: after, line.number ≤ found.number := by
    intro found hmem
    obtain rfl | hmem := List.mem_cons.1 hmem
    · exact Nat.le_refl _
    · exact Nat.le_of_lt (hlater found hmem)
  refine tokensBefore_append_of_lt ?_ ?_
  · intro token hmem
    exact line_lt_of_mem_passAll hearlier hmem
  · intro token hmem
    obtain hmem | ⟨last, hmem⟩ := Passage.mem_tokens_close hmem
    · exact Int.not_lt.2 (le_line_of_mem_passAll hnotEarlier hmem)
    · have hbound := (number_bounds_of_codeLines_eq hlines).2
      rw [line_closingTokens hmem]
      simp only
      omega

theorem stream_eq_of_passAll_eq (hstrict : strict.isStrict = true)
    (hloose : loose.isStrict = false) (hend : strict.marksEnd = loose.marksEnd)
    (h : passAll true file (codeLines text) ∅ = passAll false file (codeLines text) ∅) :
    (Lexer.ofText text file strict).run.stream = (Lexer.ofText text file loose).run.stream := by
  rw [stream_ofText, stream_ofText, hstrict, hloose, hend, h]

/-- A text with an inconsistent line is read strictly as it is loosely or up to the first such
    line, by whether the loose reading stops short of it. -/
theorem FirstInconsistent.stream_cases {before after : List CodeLine} {line : CodeLine}
    (h : FirstInconsistent (codeLines text) before line after) (hstrict : strict.isStrict = true)
    (hloose : loose.isStrict = false) (hend : strict.marksEnd = loose.marksEnd) :
    ((Lexer.ofText text file loose).run.ending.StopsShort line ∧
      (Lexer.ofText text file strict).run.stream = (Lexer.ofText text file loose).run.stream) ∨
    (¬ (Lexer.ofText text file loose).run.ending.StopsShort line ∧
      ∃ levels, OpenLevels before levels ∧
        (Lexer.ofText text file strict).run.stream =
          ⟨tokensBefore line.number (Lexer.ofText text file loose).run.tokens,
            .failed ⟨.mixedIndent line.width (levels.map Int.ofNat), some line.number, none,
              file⟩⟩) := by
  obtain ⟨hsame, diagnostic, hfail, hshort⟩ | ⟨blocks, next, shift, hbefore, hrecords, hresolve,
    hpassage⟩ := h.passAll_cases file (number_lt_of_codeLines_eq h.lines_eq).1
  · left
    refine ⟨⟨diagnostic, ?_, hshort⟩, stream_eq_of_passAll_eq hstrict hloose hend hsame⟩
    have hstream := stream_ofText text file loose
    rw [hloose, Passage.close_of_error hfail] at hstream
    exact congrArg Stream.ending hstream
  · right
    refine ⟨not_stopsShort hloose h.lines_eq hbefore hresolve, blocks.levels, hrecords.openLevels,
      ?_⟩
    have htokens := tokensBefore_tokens_run h.lines_eq (hloose.symm ▸ hbefore)
    rw [stream_ofText, hstrict, hpassage, htokens, hloose]
    rfl

/-- A strict reading from the loose one. Where the loose reading stops short of the first
    inconsistent line, or there is none, the two are the same. Otherwise the strict reading hands
    out what the loose one does in front of that line, and fails there. So whatever is accepted
    strictly is accepted loosely, with the same tokens. -/
theorem strict_stream (hstrict : strict.isStrict = true) (hloose : loose.isStrict = false)
    (hend : strict.marksEnd = loose.marksEnd) :
    ((∀ before line after, FirstInconsistent (codeLines text) before line after →
        (Lexer.ofText text file loose).run.ending.StopsShort line) →
      (Lexer.ofText text file strict).run.stream = (Lexer.ofText text file loose).run.stream) ∧
    (∀ before line after, FirstInconsistent (codeLines text) before line after →
      ¬ (Lexer.ofText text file loose).run.ending.StopsShort line →
        ∃ levels, OpenLevels before levels ∧
          (Lexer.ofText text file strict).run.stream =
            ⟨tokensBefore line.number (Lexer.ofText text file loose).run.tokens,
              .failed ⟨.mixedIndent line.width (levels.map Int.ofNat), some line.number, none,
                file⟩⟩) ∧
    ∀ tokens, tokenize text file strict = .ok tokens → tokenize text file loose = .ok tokens := by
  have hconsistent (h : Consistent [] (codeLines text)) :
      (Lexer.ofText text file strict).run.stream = (Lexer.ofText text file loose).run.stream :=
    stream_eq_of_passAll_eq hstrict hloose hend (passAll_strict_of_consistent strictRecords_nil h)
  refine ⟨?_, ?_, ?_⟩
  · intro hshort
    obtain hall | ⟨before, line, after, hfirst⟩ := consistent_or_exists_first (codeLines text)
    · exact hconsistent hall
    · obtain ⟨-, hsame⟩ | ⟨hnot, -⟩ := hfirst.stream_cases hstrict hloose hend
      · exact hsame
      · exact absurd (hshort before line after hfirst) hnot
  · intro before line after hfirst hnot
    obtain ⟨hshort, -⟩ | ⟨-, hmixed⟩ := hfirst.stream_cases hstrict hloose hend
    · exact absurd hshort hnot
    · exact hmixed
  · intro tokens htokens
    rw [tokenize_eq_ok_iff_stream] at htokens ⊢
    obtain hall | ⟨before, line, after, hfirst⟩ := consistent_or_exists_first (codeLines text)
    · rw [← hconsistent hall, htokens]
    · obtain ⟨-, hsame⟩ | ⟨-, levels, -, hmixed⟩ := hfirst.stream_cases hstrict hloose hend
      · rw [← hsame, htokens]
      · rw [htokens] at hmixed
        cases hmixed

theorem strict_stream_tab_then_spaces :
    (Lexer.ofText "a\n\tb\n    c\n").run.ending = .finished ∧
      ∃ levels, OpenLevels [⟨1, [], ['a']⟩, ⟨2, ['\t'], ['b']⟩] levels ∧
        (Lexer.ofText "a\n\tb\n    c\n" none { strictIndentation := .flag true }).run.stream =
          ⟨tokensBefore 3 (Lexer.ofText "a\n\tb\n    c\n").run.tokens,
            .failed ⟨.mixedIndent 4 (levels.map Int.ofNat), some 3, none, none⟩⟩ := by
  have hending : (Lexer.ofText "a\n\tb\n    c\n").run.ending = .finished := by decide +kernel
  have hlines : codeLines "a\n\tb\n    c\n" =
      [⟨1, [], ['a']⟩, ⟨2, ['\t'], ['b']⟩] ++ ⟨3, "    ".toList, ['c']⟩ :: [] := by
    decide +kernel
  have hfirst : FirstInconsistent (codeLines "a\n\tb\n    c\n")
      [⟨1, [], ['a']⟩, ⟨2, ['\t'], ['b']⟩] ⟨3, "    ".toList, ['c']⟩ [] := by
    refine ⟨hlines, consistent_cons.2 ⟨?_, consistent_cons.2 ⟨?_, consistent_nil _⟩⟩, ?_⟩
    · rintro ⟨opener, hforce, -⟩
      exact not_inForce_nil opener hforce
    · rintro ⟨opener, hforce, -, hnot⟩
      obtain rfl := List.mem_singleton.1 hforce.mem
      exact hnot List.nil_prefix
    · exact ⟨⟨2, ['\t'], ['b']⟩, ⟨[⟨1, [], ['a']⟩], [], rfl, by simp⟩, by decide, by decide⟩
  obtain ⟨-, hmixed, -⟩ := @strict_stream "a\n\tb\n    c\n" none
    { strictIndentation := .flag true } {} rfl rfl rfl
  refine ⟨hending, hmixed _ _ _ hfirst ?_⟩
  rintro ⟨diagnostic, hfailed, -⟩
  rw [hending] at hfailed
  cases hfailed

end

end Offside
