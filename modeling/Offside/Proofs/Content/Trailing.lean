import Offside.Proofs.Lexemes.Separation
import Offside.Proofs.Text.PhysicalLines

/-!
# Blanks and comments behind a content

Blanks at the end of a line, and a comment behind them, belong to no lexeme and cause no fault. A
content is the same with and without them, wherever it ends: within a comment, behind a lexeme
that could go on, or at the character that is its fault.
-/

namespace Offside

variable {text inserted : List Char}

theorem WithoutContent.separates (h : WithoutContent inserted) : Separates inserted := by
  obtain ⟨gap, comment, rfl, hgap, hcomment⟩ := h
  cases gap with
  | nil =>
    intro c hhead
    obtain rfl | hcomment := hcomment
    · cases hhead
    · rw [List.nil_append, hcomment] at hhead
      cases hhead
      exact .inr rfl
  | cons blank gap =>
    rintro c ⟨⟩
    exact .inl (hgap _ List.mem_cons_self)

/-- A line without content stays one when blanks or a comment are put behind it. -/
theorem WithoutContent.append_right (h : WithoutContent text)
    (hinserted : WithoutContent inserted) :
    WithoutContent (text ++ inserted) := by
  obtain ⟨gap, comment, rfl, hgap, rfl | hcomment⟩ := h
  · rw [List.append_nil]
    exact hinserted.append hgap
  · obtain ⟨rest, rfl⟩ := List.head?_eq_some_iff.1 hcomment
    exact ⟨gap, '#' :: (rest ++ inserted), List.append_assoc _ _ _, hgap, .inr rfl⟩

namespace Content

theorem read_of_withoutContent (h : WithoutContent text) (column : Nat) :
    read column text = ⟨[], none⟩ := by
  obtain ⟨gap, comment, rfl, hgap, hcomment⟩ := h
  rw [read_blanks_append hgap]
  obtain rfl | hcomment := hcomment
  · exact read_nil _
  · obtain ⟨rest, rfl⟩ := List.head?_eq_some_iff.1 hcomment
    exact read_comment _ rest

/-- Blanks and a comment behind a text do not change its content. The last lexeme is found as
    before, since it would end in front of them in any case, and so is a fault. -/
theorem read_append (hinserted : WithoutContent inserted) (column : Nat) (text : List Char) :
    read column (text ++ inserted) = read column text := by
  have hseparates := hinserted.separates
  fun_induction read column text with
  | case1 column => exact read_of_withoutContent hinserted column
  | case2 column c rest hblank ih => rw [List.cons_append, read_cons_of_isBlank hblank, ih]
  | case3 column rest hblank => exact read_comment column _
  | case4 column c rest hblank hcomment hread =>
    have hread' : Lexeme.read? (c :: (rest ++ inserted)) = none :=
      (Lexeme.read?_append hseparates).trans hread
    exact read_cons_of_read?_eq_none (Bool.eq_false_iff.2 hblank) hcomment hread'
  | case5 column c rest hblank hcomment lexeme hread ih =>
    have hread' : Lexeme.read? (c :: (rest ++ inserted)) = some lexeme :=
      (Lexeme.read?_append hseparates).trans hread
    have hdrop : (c :: (rest ++ inserted)).drop lexeme.text.length =
        (c :: rest).drop lexeme.text.length ++ inserted :=
      List.drop_append_of_le_length (Lexeme.text_isPrefix_of_read? hread).length_le
    rw [List.cons_append, read_cons_of_read? (Bool.eq_false_iff.2 hblank) hcomment hread', hdrop,
      ih]

end Content

end Offside
