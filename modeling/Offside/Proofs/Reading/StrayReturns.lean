import Offside.Proofs.Layout.Blocks
import Offside.Proofs.Reading.Failure
import Offside.Proofs.Text.PhysicalLines
import Offside.Proofs.Text.Spots

/-!
# Stray carriage returns

A carriage return belongs to the ending of a line right before a line feed, and at the end of the
text. Anywhere else outside comments it is a character that starts no lexeme, and keeps the text
from being read. So it is reported, or something in front of it is: another such character, or the
indentation of a line. At the end of the text it is never reported, as no line feed is asked for
there.
-/

namespace Offside

/-- What keeps a line from being read: it fits no block, or its content has a fault. -/
inductive CodeLine.FailsWith (file : Option String) (line : CodeLine) : Diagnostic → Prop where
  | indentation {problem : Problem}
      (hcategory : Category.indentation ∈ problem.category.lineage) :
      FailsWith file line ((line.origin file).report problem)
  | fault {fault : Fault} (hfault : line.content.fault = some fault) :
      FailsWith file line (fault.diagnostic (line.origin file))

namespace Spot

variable {text : List Char}

/-- The diagnostic of a spot where no lexeme starts. -/
def diagnostic (file : Option String) (spot : Spot text) : Diagnostic where
  problem := .unrecognized (String.singleton spot.character)
  line := some spot.line
  column := some spot.column
  file := file

/-- A carriage return without a line feed right behind it, and with no comment in front of it on its
    line. -/
structure IsStray (spot : Spot text) : Prop where
  character_eq : spot.character = '\r'
  not_comment : '#' ∉ spot.start
  not_feed : spot.back.head? ≠ some '\n'

structure FirstStray (spot : Spot text) : Prop where
  isStray : spot.IsStray
  le : ∀ other : Spot text, other.IsStray → spot.position ≤ other.position

/-- The diagnostics of what comes before a spot: of the indentation of its line or of a line above
    it, and of another character in front of it. -/
inductive Earlier (file : Option String) (spot : Spot text) : Diagnostic → Prop where
  | indentation {number : Nat} {problem : Problem}
      (hcategory : Category.indentation ∈ problem.category.lineage) (hline : number ≤ spot.line) :
      Earlier file spot ((Origin.mk number file).report problem)
  | character {other : Spot text} (hother : other.character ≠ '\r')
      (hposition : other.position < spot.position) : Earlier file spot (other.diagnostic file)

end Spot

/-- What becomes of the first stray carriage return of a text. -/
structure ReportsReturns (text : String) (file : Option String) (options : Options) : Prop where
  exists_firstStray : ∀ spot : Spot text.toList, spot.IsStray →
    ∃ first : Spot text.toList, first.FirstStray
  /-- With something behind it, it keeps the text from being read, unless something in front of it
      does. -/
  fails : ∀ first : Spot text.toList, first.FirstStray → first.back ≠ [] →
    ∃ diagnostic, tokenize text file options = .error diagnostic ∧
      (diagnostic = first.diagnostic file ∨ first.Earlier file diagnostic)
  /-- At the end of the text it is passed over. -/
  passed : ∀ first : Spot text.toList, first.FirstStray → first.back = [] →
    ∀ diagnostic, tokenize text file options = .error diagnostic →
      diagnostic.problem ≠ .unrecognized (String.singleton '\r')

-- ════════════════════════════════════════════════════════════════════════
-- The line that fails
-- ════════════════════════════════════════════════════════════════════════

theorem indentation_mem_lineage_of_resolve {strict : Bool} {indent : List Char}
    {blocks : OpenBlocks} {problem : Problem}
    (h : blocks.resolve strict indent = .error problem) :
    Category.indentation ∈ problem.category.lineage := by
  obtain rfl | ⟨-, rfl⟩ := OpenBlocks.resolve_eq_error h <;>
    simp [Problem.category, Category.lineage]

/-- A failure comes from the first line that fails, and no line in front of that has a fault. -/
theorem exists_failing_line {strict : Bool} {file : Option String} {lines : List CodeLine}
    {blocks : OpenBlocks} {diagnostic : Diagnostic}
    (h : (passAll strict file lines blocks).outcome = .error diagnostic) :
    ∃ before line after, lines = before ++ line :: after ∧
      (∀ earlier ∈ before, earlier.content.fault = none) ∧ line.FailsWith file diagnostic := by
  induction lines generalizing blocks with
  | nil => cases h
  | cons line rest ih =>
    cases hresolve : blocks.resolve strict line.indent with
    | error problem =>
      rw [passAll_cons_of_error hresolve] at h
      cases h
      exact ⟨[], line, rest, rfl, List.forall_mem_nil _,
        .indentation (indentation_mem_lineage_of_resolve hresolve)⟩
    | ok result =>
      obtain ⟨next, shift⟩ := result
      cases hfault : line.content.fault with
      | some fault =>
        rw [passAll_cons_of_fault hresolve (CodeLine.fault?_of_fault hfault)] at h
        cases h
        exact ⟨[], line, rest, rfl, List.forall_mem_nil _, .fault hfault⟩
      | none =>
        rw [passAll_cons_of_ok hresolve (CodeLine.fault?_eq_none_iff.2 hfault)] at h
        obtain ⟨before, found, after, rfl, hbefore, hfound⟩ := ih h
        exact ⟨line :: before, found, after, rfl, List.forall_mem_cons.2 ⟨hfault, hbefore⟩, hfound⟩

-- ════════════════════════════════════════════════════════════════════════
-- Faults and their spots
-- ════════════════════════════════════════════════════════════════════════

theorem CodeLine.exists_firstFaulty {line : CodeLine} {fault : Fault}
    (h : line.content.fault = some fault) :
    ∃ position, FirstFaulty (line.indent ++ line.body) line.width position ∧
      fault.column = position + 1 ∧
      (line.indent ++ line.body)[position]? = some fault.character := by
  have hdrop : (line.indent ++ line.body).drop line.width = line.body := List.drop_left
  have hfirst := Content.isFirstFault_read (line.width + 1) line.body
  rw [← content, h, ← hdrop] at hfirst
  obtain ⟨behind, hfirst, hcolumn, hcharacter⟩ := hfirst
  rw [List.getElem?_drop] at hcharacter
  exact ⟨line.width + behind, hfirst.of_drop, by omega, hcharacter⟩

/-- In front of a faulty position there is no comment, neither in the indentation nor behind it. -/
theorem FaultyAt.not_mem_take {indent body : List Char} {position : Nat} (hblank : AllBlank indent)
    (h : FaultyAt (indent ++ body) indent.length position) :
    '#' ∉ (indent ++ body).take position := by
  obtain ⟨behind, rfl⟩ := Nat.exists_eq_add_of_le h.start_le
  have hcomment := h.not_comment
  rw [List.drop_left, Nat.add_assoc, Nat.add_sub_cancel_left] at hcomment
  rw [List.take_length_add_append, List.mem_append, not_or]
  refine ⟨?_, ?_⟩
  · intro hmem
    exact absurd (hblank _ hmem) (by decide)
  · intro hmem
    exact hcomment ((List.take_prefix_take_left (Nat.le_succ behind)).subset hmem)

section

variable {text : String} {line : CodeLine}

/-- A fault is reported at its spot, with no comment in front of it. If it is a carriage return it
    does not belong to the ending of its line. -/
theorem exists_spot_of_fault {fault : Fault} (hline : line ∈ codeLines text)
    (hfault : line.content.fault = some fault) :
    ∃ spot : Spot text.toList, spot.line = line.number ∧
      (∀ file, fault.diagnostic (line.origin file) = spot.diagnostic file) ∧
      FirstFaulty (line.indent ++ line.body) line.width spot.start.length ∧
      (spot.character = '\r' → spot.IsStray ∧ spot.back ≠ []) := by
  obtain ⟨position, hfirst, hcolumn, hcharacter⟩ := CodeLine.exists_firstFaulty hfault
  have hblank := (indent_and_content_of_mem_codeLines hline).1
  obtain ⟨index, found, hfound, -, rfl⟩ := mem_codeLinesFrom_iff.1 hline
  have hcomment := FaultyAt.not_mem_take hblank hfirst.faultyAt
  simp only [Line.indent_append_body] at hcharacter hcomment hfirst ⊢
  obtain ⟨spot, hnumber, hstart, hc, hreturn⟩ := exists_spot hfound hcharacter
  obtain ⟨hlt, -⟩ := List.getElem?_eq_some_iff.1 hcharacter
  have hlength : spot.start.length = position := by
    rw [hstart, List.length_take_of_le (Nat.le_of_lt hlt)]
  refine ⟨spot, hnumber.trans (Nat.add_comm _ _), ?_, hlength ▸ hfirst, ?_⟩
  · intro file
    rw [Spot.diagnostic, hc, hnumber, Spot.column, hlength, ← hcolumn, Nat.add_comm index]
    rfl
  · intro heq
    obtain ⟨hne, hfeed⟩ := hreturn (hc ▸ heq)
    exact ⟨⟨heq, hstart ▸ hcomment, hfeed⟩, hne⟩

/-- Blanks in front of a carriage return do not reach beyond it. -/
theorem takeWhile_isBlank_append_return (start more : List Char) :
    (start ++ '\r' :: more).takeWhile isBlank = start.takeWhile isBlank ∧
      (start ++ '\r' :: more).dropWhile isBlank = start.dropWhile isBlank ++ '\r' :: more := by
  have hstop : isBlank '\r' = false := by decide
  induction start with
  | nil => simp [hstop]
  | cons c start ih =>
    rw [List.cons_append, List.takeWhile_cons, List.dropWhile_cons, List.takeWhile_cons,
      List.dropWhile_cons, ih.1, ih.2]
    split <;> exact ⟨rfl, rfl⟩

/-- A stray carriage return with something behind it is a faulty position of its line. -/
theorem Spot.IsStray.exists_faultyAt {spot : Spot text.toList} (h : spot.IsStray)
    (hne : spot.back ≠ []) :
    ∃ line ∈ codeLines text, line.number = spot.line ∧
      FaultyAt (line.indent ++ line.body) line.width spot.start.length := by
  obtain ⟨hreturn, hcomment, hfeed⟩ := h
  obtain ⟨line, more, hline, htext⟩ := spot.exists_line (by rw [hreturn]; decide) hne hfeed
  rw [hreturn] at htext
  obtain ⟨hindent, hbody⟩ := takeWhile_isBlank_append_return spot.start more
  rw [← htext, ← Line.indent] at hindent
  rw [← htext, ← Line.body] at hbody
  have hcode : line.IsCode := by
    rw [Line.IsCode, hbody]
    cases hfront : spot.start.dropWhile isBlank with
    | nil => exact ⟨'\r', rfl, by decide⟩
    | cons c rest =>
      refine ⟨c, rfl, ?_⟩
      rintro rfl
      exact hcomment ((List.dropWhile_suffix isBlank).subset (hfront ▸ List.mem_cons_self))
  refine ⟨_, mem_codeLinesFrom_iff.2 ⟨_, line, hline, hcode, rfl⟩, Nat.add_comm _ _, ?_, ?_, ?_⟩
  · rw [CodeLine.width, hindent]
    exact (List.takeWhile_prefix isBlank).length_le
  · have htake : line.text.take (spot.start.length + 1) = spot.start ++ ['\r'] := by
      rw [htext, List.take_length_add_append]
      rfl
    rw [Line.indent_append_body, ← List.drop_take, htake]
    intro hmem
    obtain hmem | hmem := List.mem_append.1 (List.mem_of_mem_drop hmem)
    · exact hcomment hmem
    · exact absurd (List.mem_singleton.1 hmem) (by decide)
  · rw [Line.indent_append_body, htext, List.drop_left]
    exact .inl (by decide)

end

-- ════════════════════════════════════════════════════════════════════════
-- The first stray carriage return
-- ════════════════════════════════════════════════════════════════════════

theorem Spot.IsStray.exists_firstStray {text : List Char} {spot : Spot text} (h : spot.IsStray) :
    ∃ first : Spot text, first.FirstStray := by
  generalize hposition : spot.position = position
  induction position using Nat.strongRecOn generalizing spot with
  | ind position ih =>
    by_cases hfirst : ∀ other : Spot text, other.IsStray → spot.position ≤ other.position
    · exact ⟨spot, h, hfirst⟩
    · simp only [not_forall, Nat.not_le, exists_prop] at hfirst
      obtain ⟨other, hother, hlt⟩ := hfirst
      exact ih _ (hposition ▸ hlt) hother rfl

theorem Spot.length_eq {text : List Char} (spot : Spot text) :
    text.length = spot.position + 1 + spot.back.length := by
  have hlength := congrArg List.length spot.text_eq
  rw [List.length_append, List.length_append, List.length_cons] at hlength
  rw [position]
  omega

/-- A spot in front of the first stray carriage return comes earlier, if it would be stray were it a
    carriage return. -/
theorem Spot.FirstStray.earlier {text : List Char} {first spot : Spot text} (h : first.FirstStray)
    (hreturn : spot.character = '\r' → spot.IsStray) (hlt : spot.position < first.position)
    (file : Option String) : first.Earlier file (spot.diagnostic file) := by
  refine .character ?_ hlt
  intro heq
  exact Nat.not_le.2 hlt (h.le spot (hreturn heq))

section

variable {text : String} {before after : List CodeLine} {line other : CodeLine}

/-- A line with a faulty position is the first one that fails, or comes behind it. -/
theorem eq_or_number_lt_of_faultyAt (hlines : codeLines text = before ++ line :: after)
    (hbefore : ∀ earlier ∈ before, earlier.content.fault = none) (hother : other ∈ codeLines text)
    {position : Nat} (hfaulty : FaultyAt (other.indent ++ other.body) other.width position) :
    other = line ∨ line.number < other.number := by
  rw [hlines, List.mem_append, List.mem_cons] at hother
  obtain hmem | rfl | hmem := hother
  · exact absurd ⟨position, hfaulty⟩ (other.fault_content_eq_none_iff.1 (hbefore other hmem))
  · exact .inl rfl
  · exact .inr ((number_lt_of_codeLines_eq hlines).2 other hmem)

/-- The line of the first stray carriage return fails if no other does, and the carriage return is
    reported if nothing else on the line is. -/
theorem Spot.FirstStray.eq_or_earlier {first : Spot text.toList} (h : first.FirstStray)
    (hne : first.back ≠ []) {file : Option String} {diagnostic : Diagnostic}
    (hlines : codeLines text = before ++ line :: after)
    (hbefore : ∀ earlier ∈ before, earlier.content.fault = none)
    (hfails : line.FailsWith file diagnostic) :
    diagnostic = first.diagnostic file ∨ first.Earlier file diagnostic := by
  obtain ⟨other, hother, hnumber, hfaulty⟩ := h.isStray.exists_faultyAt hne
  have horder := eq_or_number_lt_of_faultyAt hlines hbefore hother hfaulty
  cases hfails with
  | indentation hcategory =>
    refine .inr (.indentation hcategory ?_)
    obtain rfl | hlt := horder
    · exact Nat.le_of_eq hnumber
    · exact Nat.le_of_lt (hnumber ▸ hlt)
  | fault hfault =>
    have hmem : line ∈ codeLines text := hlines ▸ List.mem_append_right _ List.mem_cons_self
    obtain ⟨spot, hline, hreport, hfirst, hreturn⟩ := exists_spot_of_fault hmem hfault
    rw [hreport]
    have hstray : spot.character = '\r' → spot.IsStray := fun heq => (hreturn heq).1
    obtain rfl | hlt := horder
    · -- On one line the leftmost faulty position counts.
      have hsame : spot.line = first.line := hline.trans hnumber
      obtain hcolumn | hcolumn := Nat.eq_or_lt_of_le (hfirst.le _ hfaulty)
      · exact .inl (congrArg _ (eq_of_column_eq hsame (congrArg Nat.succ hcolumn)))
      · refine .inr (h.earlier hstray ?_ file)
        rw [position, position, above_eq hsame]
        omega
    · exact .inr (h.earlier hstray (position_lt (by omega)) file)

end

/-- Of all stray carriage returns of a text the first one is reported, or something in front of it
    is; but if it is the end of the text it is passed over. -/
theorem reportsReturns (text : String) (file : Option String) (options : Options) :
    ReportsReturns text file options where
  exists_firstStray _ hstray := hstray.exists_firstStray
  fails := by
    intro first hfirst hne
    obtain ⟨line, hline, -, hfaulty⟩ := hfirst.isStray.exists_faultyAt hne
    obtain ⟨before, after, hsplit⟩ := List.append_of_mem hline
    have hfault : line.content.fault ≠ none := fun hnone =>
      line.fault_content_eq_none_iff.1 hnone ⟨_, hfaulty⟩
    obtain ⟨diagnostic, herror⟩ := (@exists_outcome_eq_error_iff options.isStrict file _).2
      ⟨before, line, after, hsplit, .inr hfault⟩
    obtain ⟨before, line, after, hlines, hbefore, hfails⟩ := exists_failing_line herror
    exact ⟨diagnostic, tokenize_eq_error_iff.2 herror,
      hfirst.eq_or_earlier hne hlines hbefore hfails⟩
  passed := by
    intro first hfirst hend diagnostic herror hproblem
    obtain ⟨before, line, after, hlines, -, hfails⟩ :=
      exists_failing_line (tokenize_eq_error_iff.1 herror)
    cases hfails with
    | @indentation problem hcategory =>
      obtain rfl : problem = _ := hproblem
      exact absurd hcategory (by simp [Problem.category, Category.lineage])
    | @fault fault hfault =>
      have hmem : line ∈ codeLines text := hlines ▸ List.mem_append_right _ List.mem_cons_self
      obtain ⟨spot, -, hreport, -, hreturn⟩ := exists_spot_of_fault hmem hfault
      rw [hreport] at hproblem
      have hcharacter : spot.character = '\r' :=
        String.singleton_inj.1 (Problem.unrecognized.inj hproblem)
      obtain ⟨hstray, hne⟩ := hreturn hcharacter
      -- It has something behind it, so it stands in front of the one at the end of the text.
      have hle := hfirst.le spot hstray
      have hlength := first.length_eq.symm.trans spot.length_eq
      have hpos := List.length_pos_of_ne_nil hne
      rw [hend, List.length_nil] at hlength
      omega

/-- Of two carriage returns in front of a line feed the first one is reported. -/
theorem reportsReturns_doubled :
    ReportsReturns "a\r\n\r\r\n" none {} ∧
      tokenize "a\r\n\r\r\n" = .error ⟨.unrecognized "\r", some 2, some 1, none⟩ :=
  ⟨reportsReturns _ _ _, by decide +kernel⟩

/-- At the end of a text a carriage return is stray, and the text is read all the same. -/
theorem stray_return_at_end :
    (∃ spot : Spot "x\r".toList, spot.IsStray) ∧
      tokenize "x\r" = .ok [{ kind := .identifier, value := "x" },
        { kind := .layout .newline, column := 2 }] :=
  ⟨⟨⟨[], ['x'], '\r', [], rfl, nofun, by decide⟩, rfl, by decide, nofun⟩, by decide +kernel⟩

end Offside
