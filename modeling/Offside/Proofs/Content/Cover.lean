import Offside.Content

/-!
# Tokens and the text they cover

The tokens of a line stand in it one behind the other, each in its column, with nothing but
blanks between them. What is behind the last one is without content, or begins, up to blanks,
with the character that is reported as the fault.
-/

namespace Offside

def AllBlank (text : List Char) : Prop :=
  ∀ c ∈ text, isBlank c = true

/-- A text without content: blanks, and behind them nothing or a comment. -/
def WithoutContent (text : List Char) : Prop :=
  ∃ gap comment, text = gap ++ comment ∧ AllBlank gap ∧
    (comment = [] ∨ comment.head? = some '#')

/-- Tokens that stand in a text one behind the other. The text begins in the given column; in
    front of each token are only blanks, and `rest` is what is behind the last one. -/
inductive Covers : Nat → List Char → List Token → List Char → Prop where
  | nil (column : Nat) (text : List Char) : Covers column text [] text
  | cons {column : Nat} {gap behind rest : List Char} {token : Token} {tokens : List Token}
      (hgap : AllBlank gap) (hvalue : token.value ≠ "")
      (hcolumn : token.column = (column + gap.length : Nat))
      (hbehind : Covers (column + gap.length + token.value.length) behind tokens rest) :
      Covers column (gap ++ (token.value.toList ++ behind)) (token :: tokens) rest

theorem WithoutContent.append {gap text : List Char} (hgap : AllBlank gap)
    (h : WithoutContent text) : WithoutContent (gap ++ text) := by
  obtain ⟨more, comment, rfl, hmore, hcomment⟩ := h
  refine ⟨gap ++ more, comment, (List.append_assoc _ _ _).symm, ?_, hcomment⟩
  exact List.forall_mem_append.2 ⟨hgap, hmore⟩

theorem WithoutContent.cons {c : Char} {text : List Char} (hc : isBlank c = true)
    (h : WithoutContent text) : WithoutContent (c :: text) := by
  obtain ⟨gap, comment, rfl, hgap, hcomment⟩ := h
  exact ⟨c :: gap, comment, rfl, List.forall_mem_cons.2 ⟨hc, hgap⟩, hcomment⟩

namespace Covers

variable {column : Nat} {text rest : List Char} {tokens : List Token}

theorem eq_of_nil (h : Covers column text [] rest) : rest = text := by
  cases h with
  | nil => rfl

/-- The part of the text behind the tokens can be cut off anywhere. -/
theorem exists_front {more : List Char} (h : Covers column text tokens (rest ++ more)) :
    ∃ front, text = front ++ more ∧ Covers column front tokens rest := by
  generalize hall : rest ++ more = all at h
  induction h with
  | nil column text => exact ⟨rest, hall.symm, .nil column rest⟩
  | cons hgap hvalue hcolumn hbehind ih =>
    obtain ⟨front, rfl, hfront⟩ := ih hall
    refine ⟨_, ?_, .cons hgap hvalue hcolumn hfront⟩
    simp only [List.append_assoc]

/-- The first tokens cover the text as well, and leave more of it over. -/
theorem of_append {front back : List Token} (h : Covers column text (front ++ back) rest) :
    ∃ middle, Covers column text front middle := by
  induction front generalizing column text with
  | nil => exact ⟨text, .nil column text⟩
  | cons token tokens ih =>
    cases h with
    | cons hgap hvalue hcolumn hbehind =>
      obtain ⟨middle, hmiddle⟩ := ih hbehind
      exact ⟨middle, .cons hgap hvalue hcolumn hmiddle⟩

/-- A blank in front belongs to the gap before the first token, if there is one. -/
theorem cons_blank {c : Char} (hc : isBlank c = true)
    (h : Covers (column + 1) text tokens rest) :
    ∃ left, Covers column (c :: text) tokens left ∧ (left = rest ∨ left = c :: rest) := by
  cases h with
  | nil => exact ⟨c :: text, .nil column _, .inr rfl⟩
  | @cons _ gap behind _ token tokens hgap hvalue hcolumn hbehind =>
    have hlength : column + 1 + gap.length = column + (c :: gap).length := by
      rw [List.length_cons]
      omega
    rw [hlength] at hcolumn hbehind
    exact ⟨rest, .cons (List.forall_mem_cons.2 ⟨hc, hgap⟩) hvalue hcolumn hbehind, .inl rfl⟩

/-- Blanks in front belong to the gap before the first token, if there is one. -/
theorem append_blanks {gap : List Char} (hgap : AllBlank gap)
    (h : Covers (column + gap.length) text tokens rest) :
    ∃ left more, Covers column (gap ++ text) tokens left ∧ AllBlank more ∧ left = more ++ rest := by
  induction gap generalizing column with
  | nil => exact ⟨rest, [], h, List.forall_mem_nil _, rfl⟩
  | cons c gap ih =>
    obtain ⟨hc, hgap⟩ := List.forall_mem_cons.1 hgap
    rw [List.length_cons, Nat.add_comm gap.length, ← Nat.add_assoc] at h
    obtain ⟨left, more, hcovers, hmore, rfl⟩ := ih hgap h
    obtain ⟨all, hall, rfl | rfl⟩ := hcovers.cons_blank hc
    · exact ⟨_, more, hall, hmore, rfl⟩
    · exact ⟨_, c :: more, hall, List.forall_mem_cons.2 ⟨hc, hmore⟩, rfl⟩

/-- A token that covers a part of the text stands there in its column. -/
theorem exists_place (h : Covers column text tokens rest) {token : Token} (hmem : token ∈ tokens) :
    token.value ≠ "" ∧ ∃ front back, text = front ++ token.value.toList ++ back ∧
      token.column = (column + front.length : Nat) := by
  induction h with
  | nil => cases hmem
  | @cons column gap behind rest first tokens hgap hvalue hcolumn hbehind ih =>
    rcases List.mem_cons.1 hmem with rfl | hmem
    · exact ⟨hvalue, gap, behind, (List.append_assoc _ _ _).symm, hcolumn⟩
    · obtain ⟨hother, front, back, rfl, hplace⟩ := ih hmem
      refine ⟨hother, gap ++ (first.value.toList ++ front), back, ?_, ?_⟩
      · simp only [List.append_assoc]
      · rw [hplace, List.length_append, List.length_append, String.length_toList]
        congr 1
        omega

theorem cons_lexeme {lexeme : Lexeme} (hne : lexeme.text ≠ []) (origin : Origin)
    (h : Covers (column + lexeme.text.length) text tokens rest) :
    Covers column (lexeme.text ++ text) (Placed.token ⟨column, lexeme⟩ origin :: tokens) rest := by
  have hlist : (String.ofList lexeme.text).toList = lexeme.text := String.toList_ofList
  have hvalue : (Placed.token ⟨column, lexeme⟩ origin).value ≠ "" := by
    intro hempty
    have hnil : (String.ofList lexeme.text).toList = [] := congrArg String.toList hempty
    exact hne (hlist.symm.trans hnil)
  have hbehind : Covers (column + ([] : List Char).length +
      (Placed.token ⟨column, lexeme⟩ origin).value.length) text tokens rest := by
    rw [Placed.token, String.length_ofList]
    exact h
  have hcons := Covers.cons (List.forall_mem_nil _) hvalue rfl hbehind
  rwa [List.nil_append, Placed.token, hlist] at hcons

end Covers

/-- What is left over where reading stops: nothing with content, or the fault behind blanks. -/
def Content.LeavesOver (content : Content) (endColumn : Nat) (rest : List Char) : Prop :=
  match content.fault with
  | none => WithoutContent rest
  | some fault => ∃ gap behind, rest = gap ++ fault.character :: behind ∧ AllBlank gap ∧
      fault.column + (behind.length + 1) = endColumn

namespace Content

theorem LeavesOver.cons {content : Content} {endColumn : Nat} {rest : List Char} {c : Char}
    (hc : isBlank c = true) (h : content.LeavesOver endColumn rest) :
    content.LeavesOver endColumn (c :: rest) := by
  unfold LeavesOver at h ⊢
  split at h
  · exact h.cons hc
  · obtain ⟨gap, behind, rfl, hgap, hcolumn⟩ := h
    exact ⟨c :: gap, behind, rfl, List.forall_mem_cons.2 ⟨hc, hgap⟩, hcolumn⟩

/-- The tokens of a text cover it, up to where it has no more content or to its fault. -/
theorem exists_covers_read (origin : Origin) (column : Nat) (text : List Char) :
    ∃ rest, Covers column text ((read column text).lexemes.map (·.token origin)) rest ∧
      (read column text).LeavesOver (column + text.length) rest := by
  fun_induction read column text with
  | case1 column =>
    exact ⟨[], .nil column [], [], [], rfl, List.forall_mem_nil _, .inl rfl⟩
  | case2 column c rest hblank ih =>
    obtain ⟨left, hcovers, hleft⟩ := ih
    have hend : column + 1 + rest.length = column + (c :: rest).length := by
      rw [List.length_cons]
      omega
    rw [hend] at hleft
    obtain ⟨all, hall, rfl | rfl⟩ := hcovers.cons_blank hblank
    · exact ⟨_, hall, hleft⟩
    · exact ⟨_, hall, hleft.cons hblank⟩
  | case3 column rest hblank =>
    exact ⟨_, .nil column _, [], _, rfl, List.forall_mem_nil _, .inr rfl⟩
  | case4 column c rest hblank hcomment hnone =>
    exact ⟨_, .nil column _, [], rest, rfl, List.forall_mem_nil _, rfl⟩
  | case5 column c rest hblank hcomment lexeme hread ih =>
    obtain ⟨left, hcovers, hleft⟩ := ih
    have hsplit := Lexeme.text_append_of_read? hread
    have hend : column + lexeme.text.length +
        ((c :: rest).drop lexeme.text.length).length = column + (c :: rest).length := by
      have hlength := congrArg List.length hsplit
      rw [List.length_append] at hlength
      omega
    rw [hend] at hleft
    have hall := hcovers.cons_lexeme (Lexeme.text_ne_nil_of_read? hread) origin
    rw [hsplit] at hall
    exact ⟨left, hall, hleft⟩

end Content

end Offside
