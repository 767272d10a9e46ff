import Offside.Content

/-!
# Content further to the right

The column in which a text begins has no bearing on how the text is read. A content that begins
further to the right has the same lexemes and the same fault, as many columns further on.
-/

namespace Offside

section

variable (count : Nat)

def Placed.moveRight (placed : Placed) : Placed :=
  { placed with column := placed.column + count }

def Fault.moveRight (fault : Fault) : Fault :=
  { fault with column := fault.column + count }

def Content.moveRight (content : Content) : Content :=
  ⟨content.lexemes.map (·.moveRight count), content.fault.map (·.moveRight count)⟩

def Token.moveRight (token : Token) : Token :=
  { token with column := token.column + count }

/-- A diagnostic about a moved text. One that has no column is about no place in the line. -/
def Diagnostic.moveRight (diagnostic : Diagnostic) : Diagnostic :=
  { diagnostic with column := diagnostic.column.map (· + (count : Int)) }

end

namespace Content

variable {count : Nat}

theorem cons_moveRight (placed : Placed) (content : Content) :
    (content.cons placed).moveRight count =
      (content.moveRight count).cons (placed.moveRight count) := rfl

/-- What stands in a text is found by its characters alone, and no column is ever compared. -/
theorem read_add (column count : Nat) (text : List Char) :
    read (column + count) text = (read column text).moveRight count := by
  fun_induction read column text with
  | case1 => rw [read_nil]; rfl
  | case2 column c rest hblank ih =>
    rw [read_cons_of_isBlank hblank, Nat.add_right_comm, ih]
  | case3 => rw [read_comment]; rfl
  | case4 column c rest hblank hcomment hread =>
    rw [read_cons_of_read?_eq_none (Bool.eq_false_iff.2 hblank) hcomment hread]
    rfl
  | case5 column c rest hblank hcomment lexeme hread ih =>
    rw [read_cons_of_read? (Bool.eq_false_iff.2 hblank) hcomment hread, Nat.add_right_comm, ih,
      cons_moveRight]
    rfl

theorem tokens_moveRight (content : Content) (origin : Origin) (width : Nat) :
    (content.moveRight count).tokens origin (width + count) =
      (content.tokens origin width).map (Token.moveRight count) := by
  obtain ⟨lexemes, fault⟩ := content
  have hlexemes : (lexemes.map (·.moveRight count)).map (·.token origin) =
      (lexemes.map (·.token origin)).map (Token.moveRight count) := by
    simp only [List.map_map]
    rfl
  have hend : origin.mark .newline (width + count + 1) =
      (origin.mark .newline (width + 1)).moveRight count := by
    rw [Nat.add_right_comm]
    rfl
  simp only [tokens, moveRight, List.map_append, hlexemes, hend, Option.isSome_map]
  split <;> rfl

theorem problem?_moveRight (content : Content) (origin : Origin) :
    (content.moveRight count).problem? origin =
      (content.problem? origin).map (Diagnostic.moveRight count) := by
  obtain ⟨lexemes, fault⟩ := content
  cases fault <;> rfl

end Content

end Offside
