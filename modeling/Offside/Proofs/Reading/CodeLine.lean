import Offside.Line
import Offside.Proofs.Lexemes.Grammar

/-!
# Code lines

Only lines with content matter for the tokens of a text. `CodeLine` keeps what counts about
such a line: its number among all lines, its indentation, and what stands behind it.
`codeLines` finds them in a text.
-/

namespace Offside

/-- A line with content: its number in the text, its indentation, and what follows it. -/
structure CodeLine where
  number : Nat
  indent : List Char
  body : List Char
deriving DecidableEq, Repr

namespace CodeLine

def width (line : CodeLine) : Nat :=
  line.indent.length

def origin (line : CodeLine) (file : Option String) : Origin :=
  ⟨line.number, file⟩

def content (line : CodeLine) : Content :=
  Content.read (line.width + 1) line.body

/-- The tokens behind the indentation: the lexemes, and the end of the line if it is
    reached. -/
def contentTokens (file : Option String) (line : CodeLine) : List Token :=
  line.content.tokens (line.origin file) (line.width + line.body.length)

def fault? (file : Option String) (line : CodeLine) : Option Diagnostic :=
  line.content.problem? (line.origin file)

end CodeLine

/-- The code lines among some lines, the first of which has the given number. -/
def codeLinesFrom (first : Nat) : List Line → List CodeLine
  | [] => []
  | line :: rest =>
    if line.IsCode then ⟨first, line.indent, line.body⟩ :: codeLinesFrom (first + 1) rest
    else codeLinesFrom (first + 1) rest

def codeLines (text : String) : List CodeLine :=
  codeLinesFrom 1 (Line.split text.toList)

theorem codeLinesFrom_append (first : Nat) (front back : List Line) :
    codeLinesFrom first (front ++ back) =
      codeLinesFrom first front ++ codeLinesFrom (first + front.length) back := by
  induction front generalizing first with
  | nil => rfl
  | cons line rest ih =>
    have hlength : first + (line :: rest).length = first + 1 + rest.length := by
      rw [List.length_cons]
      omega
    simp only [List.cons_append, codeLinesFrom, ih, hlength]
    split <;> rfl

theorem number_mem_codeLinesFrom {first : Nat} {lines : List Line} {line : CodeLine}
    (h : line ∈ codeLinesFrom first lines) :
    first ≤ line.number ∧ line.number < first + lines.length := by
  induction lines generalizing first with
  | nil => cases h
  | cons head rest ih =>
    rw [List.length_cons]
    simp only [codeLinesFrom] at h
    split at h
    · rcases List.mem_cons.1 h with rfl | h
      · simp
      · have := ih h
        omega
    · have := ih h
      omega

theorem pairwise_number_codeLinesFrom (first : Nat) (lines : List Line) :
    (codeLinesFrom first lines).Pairwise fun a b => a.number < b.number := by
  induction lines generalizing first with
  | nil => exact List.Pairwise.nil
  | cons line rest ih =>
    simp only [codeLinesFrom]
    split
    · refine List.pairwise_cons.2 ⟨?_, ih (first + 1)⟩
      intro later hlater
      exact (number_mem_codeLinesFrom hlater).1
    · exact ih (first + 1)

theorem pairwise_number_codeLines (text : String) :
    (codeLines text).Pairwise fun a b => a.number < b.number :=
  pairwise_number_codeLinesFrom 1 _

section

variable {text : String} {before after : List CodeLine} {line : CodeLine}

/-- Where the code lines of a text are cut in two, the numbers of the front are smaller and
    those of the back are greater than that of the line between. -/
theorem number_lt_of_codeLines_eq (h : codeLines text = before ++ line :: after) :
    (∀ earlier ∈ before, earlier.number < line.number) ∧
      ∀ later ∈ after, line.number < later.number := by
  have hpairs := pairwise_number_codeLines text
  rw [h, List.pairwise_append, List.pairwise_cons] at hpairs
  obtain ⟨-, ⟨hafter, -⟩, hcross⟩ := hpairs
  exact ⟨fun earlier he => hcross earlier he line List.mem_cons_self, hafter⟩

theorem number_bounds_of_codeLines_eq (h : codeLines text = before ++ line :: after) :
    1 ≤ line.number ∧ line.number < 1 + (Line.split text.toList).length := by
  have hmem : line ∈ codeLines text := by
    rw [h]
    exact List.mem_append_right _ List.mem_cons_self
  exact number_mem_codeLinesFrom hmem

end

theorem isStructural_of_read? {text : List Char} {lexeme : Lexeme}
    (h : Lexeme.read? text = some lexeme) : lexeme.kind.isStructural = false := by
  cases Lexeme.formed_of_read? h <;> rfl

/-- Every lexeme of a content was read at the head of some text. -/
theorem exists_read?_of_mem_lexemes {column : Nat} {text : List Char} {placed : Placed}
    (h : placed ∈ (Content.read column text).lexemes) :
    ∃ rest, Lexeme.read? rest = some placed.lexeme := by
  fun_induction Content.read column text with
  | case1 => cases h
  | case2 column c rest hblank ih => exact ih h
  | case3 => cases h
  | case4 => cases h
  | case5 column c rest hblank hcomment lexeme hread ih =>
    rcases List.mem_cons.1 h with rfl | h
    · exact ⟨_, hread⟩
    · exact ih h

theorem CodeLine.fault?_eq (file : Option String) (line : CodeLine) :
    line.fault? file = line.content.fault.map (·.diagnostic (line.origin file)) := rfl

theorem CodeLine.fault?_of_fault {file : Option String} {line : CodeLine} {fault : Fault}
    (h : line.content.fault = some fault) :
    line.fault? file = some (fault.diagnostic (line.origin file)) := by
  rw [fault?_eq, h, Option.map_some]

theorem CodeLine.fault?_eq_none_iff {file : Option String} {line : CodeLine} :
    line.fault? file = none ↔ line.content.fault = none := by
  rw [fault?_eq, Option.map_eq_none_iff]

/-- A fault is reported at its line. -/
theorem CodeLine.category_and_line_of_fault? {file : Option String} {line : CodeLine}
    {diagnostic : Diagnostic} (h : line.fault? file = some diagnostic) :
    diagnostic.problem.category = .unrecognized ∧
      diagnostic.line = some (line.number : Int) := by
  rw [fault?_eq, Option.map_eq_some_iff] at h
  obtain ⟨fault, -, rfl⟩ := h
  exact ⟨rfl, rfl⟩

theorem isStructural_of_mem_lexemes {line : CodeLine} {origin : Origin} {token : Token}
    (h : token ∈ line.content.lexemes.map (·.token origin)) : token.isStructural = false := by
  obtain ⟨placed, hplaced, rfl⟩ := List.mem_map.1 h
  obtain ⟨rest, hread⟩ := exists_read?_of_mem_lexemes hplaced
  exact isStructural_of_read? hread

section

variable {file : Option String} {line : CodeLine}

theorem contentTokens_of_fault {fault : Fault} (h : line.content.fault = some fault) :
    line.contentTokens file = line.content.lexemes.map (·.token (line.origin file)) := by
  rw [CodeLine.contentTokens, Content.tokens, h, Option.isSome_some, if_pos rfl, List.append_nil]

theorem contentTokens_of_finished (h : line.content.fault = none) :
    line.contentTokens file = line.content.lexemes.map (·.token (line.origin file)) ++
      [(line.origin file).mark .newline (line.width + line.body.length + 1)] := by
  rw [CodeLine.contentTokens, Content.tokens, h]
  rfl

/-- Only a line with a fault may come to no tokens at all. -/
theorem contentTokens_ne_nil (h : line.fault? file = none) : line.contentTokens file ≠ [] := by
  rw [contentTokens_of_finished (CodeLine.fault?_eq_none_iff.1 h)]
  exact List.concat_ne_nil _ _

end

/-- A token of the content of a line stands for one of its lexemes, or marks its end. -/
theorem mem_contentTokens_cases {file : Option String} {line : CodeLine} {token : Token}
    (h : token ∈ line.contentTokens file) :
    (∃ placed ∈ line.content.lexemes, token = placed.token (line.origin file)) ∨
      token = (line.origin file).mark .newline (line.width + line.body.length + 1) := by
  rw [CodeLine.contentTokens, Content.tokens, List.mem_append, List.mem_map] at h
  obtain ⟨placed, hplaced, rfl⟩ | hend := h
  · exact .inl ⟨placed, hplaced, rfl⟩
  · split at hend
    · cases hend
    · exact .inr (List.mem_singleton.1 hend)

theorem isStructural_contentTokens {file : Option String} {line : CodeLine} {token : Token}
    (h : token ∈ line.contentTokens file) :
    token.kind = .layout .newline ∨ token.kind.isStructural = false := by
  obtain ⟨placed, hplaced, rfl⟩ | rfl := mem_contentTokens_cases h
  · obtain ⟨rest, hread⟩ := exists_read?_of_mem_lexemes hplaced
    exact .inr (isStructural_of_read? hread)
  · exact .inl rfl

theorem line_contentTokens {file : Option String} {line : CodeLine} {token : Token}
    (h : token ∈ line.contentTokens file) : token.line = line.number := by
  obtain ⟨placed, -, rfl⟩ | rfl := mem_contentTokens_cases h <;> rfl

end Offside
