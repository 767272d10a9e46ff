import Offside.Proofs.Reading.CodeLine

/-!
# The text in front of a line

A text can be cut in front of any of its lines. The part in front has just the lines with
smaller numbers, so a statement about what was read before some line is one about reading
that part on its own.
-/

namespace Offside

/-- The first lines of a text, with their endings. -/
def frontLines : Nat → List Char → List Char
  | 0, _ => []
  | _ + 1, [] => []
  | count + 1, c :: rest =>
    c :: if c = '\n' then frontLines count rest else frontLines (count + 1) rest

/-- The text in front of the line with a given number. -/
def textBefore (number : Nat) (text : String) : String :=
  String.ofList (frontLines (number - 1) text.toList)

/-- The tokens on the lines in front of the one with a given number. -/
def tokensBefore (number : Nat) (tokens : List Token) : List Token :=
  tokens.filter fun token => token.line < number

theorem tokensBefore_append_of_lt {number : Nat} {front back : List Token}
    (hfront : ∀ token ∈ front, token.line < number)
    (hback : ∀ token ∈ back, ¬ token.line < number) :
    tokensBefore number (front ++ back) = front := by
  have hkept : front.filter (fun token : Token => token.line < (number : Int)) = front :=
    List.filter_eq_self.2 fun token hmem => decide_eq_true (hfront token hmem)
  have hdropped : back.filter (fun token : Token => token.line < (number : Int)) = [] := by
    rw [List.filter_eq_nil_iff]
    intro token hmem
    rw [decide_eq_true_iff]
    exact hback token hmem
  rw [tokensBefore, List.filter_append, hkept, hdropped, List.append_nil]

theorem splitAtNewlines_frontLines (count : Nat) (text : List Char) :
    splitAtNewlines (frontLines count text) = (splitAtNewlines text).take count := by
  induction text generalizing count with
  | nil => cases count <;> rfl
  | cons c rest ih =>
    cases count with
    | zero => rfl
    | succ count =>
      by_cases hc : c = '\n'
      · simp only [frontLines, splitAtNewlines, if_pos hc, ih, List.take_succ_cons]
      · simp only [frontLines, splitAtNewlines, if_neg hc, ih]
        cases splitAtNewlines rest with
        | nil => simp
        | cons piece pieces => rfl

theorem split_frontLines (count : Nat) (text : List Char) :
    Line.split (frontLines count text) = (Line.split text).take count := by
  rw [Line.split, splitAtNewlines_frontLines, List.map_take]
  rfl

theorem codeLinesFrom_take (first count : Nat) (lines : List Line) :
    codeLinesFrom first (lines.take count) =
      (codeLinesFrom first lines).filter (·.number < first + count) := by
  have hsplit := codeLinesFrom_append first (lines.take count) (lines.drop count)
  rw [List.take_append_drop] at hsplit
  have hfront : ∀ line ∈ codeLinesFrom first (lines.take count),
      decide (line.number < first + count) = true := by
    intro line hmem
    have hbound := (number_mem_codeLinesFrom hmem).2
    rw [List.length_take] at hbound
    exact decide_eq_true (by omega)
  have hback : ∀ line ∈ codeLinesFrom (first + (lines.take count).length) (lines.drop count),
      ¬ decide (line.number < first + count) = true := by
    intro line hmem
    have hbounds := number_mem_codeLinesFrom hmem
    rw [List.length_take, List.length_drop] at hbounds
    rw [decide_eq_true_iff]
    omega
  rw [hsplit, List.filter_append, List.filter_eq_self.2 hfront, List.filter_eq_nil_iff.2 hback,
    List.append_nil]

section

variable {text : String} {before after : List CodeLine} {line : CodeLine}

/-- The code lines in front of a code line are those of the text in front of it. -/
theorem codeLines_textBefore (h : codeLines text = before ++ line :: after) :
    codeLines (textBefore line.number text) = before := by
  obtain ⟨hbefore, hafter⟩ := number_lt_of_codeLines_eq h
  have hpos := (number_bounds_of_codeLines_eq h).1
  have hnumber : 1 + (line.number - 1) = line.number := by omega
  have hfront : before.filter (fun earlier => decide (earlier.number < line.number)) = before :=
    List.filter_eq_self.2 fun earlier hearlier => decide_eq_true (hbefore earlier hearlier)
  have hback : (line :: after).filter (fun later => decide (later.number < line.number)) = [] := by
    rw [List.filter_eq_nil_iff]
    intro later hlater
    rw [decide_eq_true_iff]
    rcases List.mem_cons.1 hlater with rfl | hlater
    · exact Nat.lt_irrefl _
    · exact Nat.not_lt.2 (Nat.le_of_lt (hafter later hlater))
  rw [codeLines, textBefore, String.toList_ofList, split_frontLines, codeLinesFrom_take, hnumber,
    ← codeLines, h, List.filter_append, hfront, hback, List.append_nil]

theorem length_split_textBefore (h : codeLines text = before ++ line :: after) :
    1 + (Line.split (textBefore line.number text).toList).length = line.number := by
  have hbounds := number_bounds_of_codeLines_eq h
  rw [textBefore, String.toList_ofList, split_frontLines, List.length_take]
  omega

end

end Offside
