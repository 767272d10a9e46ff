import Offside.Proofs.Content.Faults

/-!
# Lexemes between blanks

A lexeme is made of characters of the alphabet other than blanks, and so it is read back wherever
blanks, a comment or nothing at all follow it, whatever it stood next to before. A row of lexemes
with blanks between them is a content with just these lexemes.
-/

namespace Offside

/-- What separates lexemes: it is empty, or begins with a blank or a comment. -/
def Separates (rest : List Char) : Prop :=
  ∀ c ∈ rest.head?, isBlank c = true ∨ c = commentMark

/-- Lexemes in a row. In front of each of them stands a gap, chosen by its number. -/
def spaced (gap : Nat → List Char) : Nat → List Lexeme → List Char
  | _, [] => []
  | index, lexeme :: rest => gap index ++ lexeme.text ++ spaced gap (index + 1) rest

theorem Clean.inAlphabet {rest text : List Char} (h : Clean rest text) :
    ∀ c ∈ text, inAlphabet c = true := by
  induction h with
  | nil => exact List.forall_mem_nil _
  | cons _ hok _ ih =>
    refine List.forall_mem_cons.2 ⟨?_, ih⟩
    by_contra hout
    exact hok (.inl (Bool.eq_false_iff.2 hout))

theorem isBlank_of_isWordChar {c : Char} (h : isWordChar c = true) : isBlank c = false := by
  rw [← Bool.not_eq_true, isBlank, Bool.or_eq_true, beq_iff_eq, beq_iff_eq]
  rintro (rfl | rfl) <;> cases h

theorem isBlank_of_isDigit {c : Char} (h : c.isDigit = true) : isBlank c = false :=
  isBlank_of_isWordChar (by simp [isWordChar, h])

namespace Lexeme

theorem isBlank_of_mem_numeral {n : Numeral} (hn : n.Proper) :
    ∀ c ∈ n.text, isBlank c = false := by
  intro c hmem
  obtain hdigit | rfl | rfl := hn.mem_text hmem
  · exact isBlank_of_isDigit hdigit
  · rfl
  · rfl

/-- A lexeme has no blank in it. -/
theorem Formed.isBlank_of_mem {lexeme : Lexeme} (h : lexeme.Formed) :
    ∀ c ∈ lexeme.text, isBlank c = false := by
  obtain ⟨word, hword, rfl⟩ | ⟨n, hn, hlexeme⟩ | ⟨op, rfl⟩ := formed_iff.1 h
  · rw [text_ofWord]
    cases word with
    | nil => exact List.forall_mem_nil _
    | cons c rest =>
      obtain ⟨hstart, hrest⟩ := isWord_cons.1 hword
      refine List.forall_mem_cons.2 ⟨isBlank_of_isWordChar (by simp [isWordChar, hstart]), ?_⟩
      exact fun d hmem => isBlank_of_isWordChar (hrest d hmem)
  · rw [(text_of_ofNumeral? hlexeme).1]
    exact isBlank_of_mem_numeral hn
  · have hall : op.text.toList.all (fun c => !isBlank c) = true := by
      cases op <;> decide
    intro c hmem
    simpa using List.all_eq_true.1 hall c hmem

theorem Formed.inAlphabet_of_mem {lexeme : Lexeme} (h : lexeme.Formed) :
    ∀ c ∈ lexeme.text, inAlphabet c = true :=
  (clean_of_formed h []).inAlphabet

/-- A lexeme begins with a character that is neither a blank nor the start of a comment. -/
theorem Formed.exists_head {lexeme : Lexeme} (h : lexeme.Formed) :
    ∃ c rest, lexeme.text = c :: rest ∧ isBlank c = false ∧ c ≠ commentMark := by
  have hne := text_ne_nil_of_read? h.read?_text
  obtain ⟨c, rest, hcons⟩ := List.exists_cons_of_ne_nil hne
  have hmem : c ∈ lexeme.text := by
    rw [hcons]
    exact List.mem_cons_self
  refine ⟨c, rest, hcons, h.isBlank_of_mem c hmem, ?_⟩
  rintro rfl
  have hinside := h.inAlphabet_of_mem _ hmem
  cases hinside

section

variable {text rest : List Char} (hrest : Separates rest)
include hrest

/-- A lexeme does not reach into what separates it from the next one: it would have to go on with
    a blank or a comment mark. -/
theorem Formed.isPrefix_append_iff {lexeme : Lexeme} (h : lexeme.Formed) :
    lexeme.text <+: text ++ rest ↔ lexeme.text <+: text := by
  refine ⟨?_, fun hfront => hfront.trans (List.prefix_append _ _)⟩
  rintro ⟨behind, hbehind⟩
  obtain ⟨more, htext, -⟩ | ⟨reach, htext, hreach⟩ := List.append_eq_append_iff.1 hbehind
  · exact ⟨more, htext.symm⟩
  · cases reach with
    | nil => exact ⟨[], by rw [List.append_nil, htext, List.append_nil]⟩
    | cons c reach =>
      have hmem : c ∈ lexeme.text := by
        rw [htext]
        exact List.mem_append_right _ List.mem_cons_self
      obtain hblank | rfl := hrest c (by rw [hreach]; rfl)
      · rw [h.isBlank_of_mem c hmem] at hblank
        cases hblank
      · cases h.inAlphabet_of_mem _ hmem

/-- Nothing that separates lexemes has an effect on what is read in front of it. -/
theorem read?_append : read? (text ++ rest) = read? text := by
  cases hread : read? text with
  | none =>
    rw [read?_eq_none_iff] at hread ⊢
    intro lexeme hformed hfront
    exact hread lexeme hformed ((hformed.isPrefix_append_iff hrest).1 hfront)
  | some lexeme =>
    have hlongest := isLongest_of_read? hread
    rw [read?_eq_some_iff]
    refine ⟨hlongest.formed, hlongest.isPrefix.trans (List.prefix_append _ _), ?_⟩
    intro other hother hfront
    exact hlongest.length_le other hother ((hother.isPrefix_append_iff hrest).1 hfront)

/-- A lexeme is read back wherever it is separated from what follows. -/
theorem Formed.read?_text_append {lexeme : Lexeme} (h : lexeme.Formed) :
    read? (lexeme.text ++ rest) = some lexeme :=
  (read?_append hrest).trans h.read?_text

end

end Lexeme

section

variable {gap : Nat → List Char}

theorem separates_spaced (hgap : ∀ index, gap index ≠ [] ∧ AllBlank (gap index)) (index : Nat)
    (lexemes : List Lexeme) : Separates (spaced gap index lexemes) := by
  cases lexemes with
  | nil => rintro c ⟨⟩
  | cons lexeme rest =>
    obtain ⟨hne, hblank⟩ := hgap index
    obtain ⟨first, more, hcons⟩ := List.exists_cons_of_ne_nil hne
    rw [hcons] at hblank
    rw [spaced, hcons]
    rintro _ ⟨⟩
    exact .inl (hblank first List.mem_cons_self)

theorem inAlphabet_of_mem_spaced (hgap : ∀ index, AllBlank (gap index)) {lexemes : List Lexeme}
    (hformed : ∀ lexeme ∈ lexemes, lexeme.Formed) (index : Nat) :
    ∀ c ∈ spaced gap index lexemes, inAlphabet c = true := by
  induction lexemes generalizing index with
  | nil => exact List.forall_mem_nil _
  | cons lexeme rest ih =>
    obtain ⟨hlexeme, hrest⟩ := List.forall_mem_cons.1 hformed
    rw [spaced, List.forall_mem_append, List.forall_mem_append]
    refine ⟨⟨?_, hlexeme.inAlphabet_of_mem⟩, ih hrest (index + 1)⟩
    exact fun c hmem => (inAlphabet_of_isBlank (hgap index c hmem)).1

namespace Content

theorem read_blanks_append {blanks : List Char} (h : AllBlank blanks) (column : Nat)
    (text : List Char) : read column (blanks ++ text) = read (column + blanks.length) text := by
  induction blanks generalizing column with
  | nil => rfl
  | cons c rest ih =>
    obtain ⟨hc, hrest⟩ := List.forall_mem_cons.1 h
    rw [List.cons_append, read_cons_of_isBlank hc, ih hrest, List.length_cons]
    congr 1
    omega

theorem read_text_append {lexeme : Lexeme} (h : lexeme.Formed) (column : Nat) {rest : List Char}
    (hrest : Separates rest) :
    read column (lexeme.text ++ rest) =
      (read (column + lexeme.text.length) rest).cons ⟨column, lexeme⟩ := by
  have hread := Lexeme.Formed.read?_text_append hrest h
  obtain ⟨c, tail, hcons, hblank, hcomment⟩ := h.exists_head
  have hdrop : (lexeme.text ++ rest).drop lexeme.text.length = rest := List.drop_left
  have htext : lexeme.text ++ rest = c :: (tail ++ rest) := by
    rw [hcons]
    rfl
  rw [htext] at hread hdrop ⊢
  rw [read_cons_of_read? hblank hcomment hread, hdrop]

/-- The content of a row of lexemes with gaps between them has these lexemes, and no fault. -/
theorem read_text_append_spaced (hgap : ∀ index, gap index ≠ [] ∧ AllBlank (gap index))
    {first : Lexeme} {lexemes : List Lexeme} (hfirst : first.Formed)
    (hformed : ∀ lexeme ∈ lexemes, lexeme.Formed) (column index : Nat) :
    (read column (first.text ++ spaced gap index lexemes)).lexemes.map Placed.lexeme =
        first :: lexemes ∧
      (read column (first.text ++ spaced gap index lexemes)).fault = none := by
  rw [read_text_append hfirst column (separates_spaced hgap index lexemes)]
  induction lexemes generalizing first column index with
  | nil =>
    rw [spaced, read_nil]
    exact ⟨rfl, rfl⟩
  | cons next rest ih =>
    obtain ⟨hnext, hrest⟩ := List.forall_mem_cons.1 hformed
    rw [spaced, List.append_assoc, read_blanks_append (hgap index).2,
      read_text_append hnext _ (separates_spaced hgap _ rest)]
    obtain ⟨hlexemes, hfault⟩ := ih hnext hrest (column + first.text.length + (gap index).length)
      (index + 1)
    exact ⟨congrArg (first :: ·) hlexemes, hfault⟩

end Content

end

end Offside
