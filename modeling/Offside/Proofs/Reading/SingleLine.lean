import Offside.Proofs.Lexemes.Separation
import Offside.Proofs.Reading.Passage

/-!
# Texts of one line

A text of characters of the alphabet, without blanks, is one line without indentation and without
a comment. If it is read without failure it is nothing but lexemes, one directly behind the other.
A lexeme of the grammar is such a text, and is read as itself.
-/

namespace Offside

/-- A text of characters of the alphabet, without blanks. -/
structure Solid (text : List Char) : Prop where
  some_char : text ≠ []
  clean : ∀ c ∈ text, inAlphabet c = true
  not_blank : ∀ c ∈ text, isBlank c = false

/-- The tokens of a text that is one lexeme: the lexeme, the end of its line, and the end of the
    text if it is marked. -/
def tokensOfOne (lexeme : Lexeme) (file : Option String) (options : Options) : List Token :=
  [(Placed.mk 1 lexeme).token ⟨1, file⟩] ++
    (Origin.mark ⟨1, file⟩ .newline (lexeme.text.length + 1) ::
      if options.marksEnd then [Origin.mark ⟨2, file⟩ .endOfText] else [])

/-- A token is a mark, which has no text, or it stands for a lexeme of the grammar. -/
inductive Token.Made : Token → Prop where
  | mark (origin : Origin) (mark : Layout) (column : Nat) : Made (origin.mark mark column)
  | lexeme (placed : Placed) (origin : Origin) (h : placed.lexeme.Formed) :
      Made (placed.token origin)

theorem clean_of_all {text : List Char}
    (h : text.all (fun c => inAlphabet c && !isBlank c) = true) {c : Char} (hmem : c ∈ text) :
    inAlphabet c = true ∧ isBlank c = false := by
  simpa using List.all_eq_true.1 h c hmem

theorem Lexeme.Formed.solid {lexeme : Lexeme} (h : lexeme.Formed) : Solid lexeme.text where
  some_char := text_ne_nil_of_read? h.read?_text
  clean := h.inAlphabet_of_mem
  not_blank := h.isBlank_of_mem

/-- The lexemes of a solid text without fault stand directly one behind the other, and nothing
    else is in it. -/
theorem Content.flatMap_text_read {column : Nat} {text : List Char}
    (hclean : ∀ c ∈ text, inAlphabet c = true) (hblank : ∀ c ∈ text, isBlank c = false)
    (hfault : (read column text).fault = none) :
    (read column text).lexemes.flatMap (·.lexeme.text) = text := by
  fun_induction read column text with
  | case1 => rfl
  | case2 column c rest hc ih =>
    rw [hblank c List.mem_cons_self] at hc
    cases hc
  | case3 column rest =>
    have hinside := hclean commentMark List.mem_cons_self
    cases hinside
  | case4 => cases hfault
  | case5 column c rest hc hcomment lexeme hread ih =>
    have hdrop := List.drop_subset lexeme.text.length (c :: rest)
    have hrest := ih (fun d hd => hclean d (hdrop hd)) (fun d hd => hblank d (hdrop hd)) hfault
    rw [cons, List.flatMap_cons, hrest]
    exact Lexeme.text_append_of_read? hread

theorem lexeme_eq_of_token_eq {placed other : Placed} {origin : Origin}
    (h : placed.token origin = other.token origin) : placed.lexeme = other.lexeme := by
  obtain ⟨column, kind, text, literal⟩ := placed
  simp only [Placed.token, Token.mk.injEq, String.ofList_inj] at h
  obtain ⟨rfl, rfl, -, -, rfl, -⟩ := h
  rfl

section

variable {text : List Char} {file : Option String} {options : Options}

theorem Solid.not_mem (h : Solid text) {c : Char} (hout : inAlphabet c = false) : c ∉ text := by
  intro hmem
  rw [h.clean c hmem] at hout
  cases hout

/-- A solid text is one line. -/
theorem Solid.split_eq (h : Solid text) : Line.split text = [⟨text, text.length + 1⟩] := by
  have hempty : text.isEmpty = false := List.isEmpty_eq_false_iff.2 h.some_char
  have hreturn : text.getLast? ≠ some '\r' := fun hlast =>
    h.not_mem (by decide) (List.mem_of_getLast? hlast)
  rw [Line.split, splitAtNewlines_of_not_mem (h.not_mem (by decide)), hempty]
  exact congrArg (fun chars => [Line.mk chars _]) (if_neg hreturn)

theorem Solid.codeLines_eq (h : Solid text) :
    codeLines (String.ofList text) = [⟨1, [], text⟩] := by
  have hsplit := h.split_eq
  obtain ⟨c, rest, rfl⟩ := List.exists_cons_of_ne_nil h.some_char
  have hblank : isBlank c = false := h.not_blank c List.mem_cons_self
  have hindent : Line.indent ⟨c :: rest, (c :: rest).length + 1⟩ = [] := by
    rw [Line.indent, List.takeWhile_cons_of_neg (by simp [hblank])]
  have hbody : Line.body ⟨c :: rest, (c :: rest).length + 1⟩ = c :: rest := by
    rw [Line.body, List.dropWhile_cons_of_neg (by simp [hblank])]
  have hcode : Line.IsCode ⟨c :: rest, (c :: rest).length + 1⟩ := by
    refine ⟨c, by rw [hbody]; rfl, ?_⟩
    rintro rfl
    exact h.not_mem (c := commentMark) (by decide) List.mem_cons_self
  rw [codeLines, String.toList_ofList, hsplit, codeLinesFrom, if_pos hcode, hindent, hbody]
  rfl

/-- A solid text is read without failure just when its only line has no fault, and then the
    tokens are those of the line. -/
theorem tokenize_solid_iff (h : Solid text) {tokens : List Token} :
    tokenize (String.ofList text) file options = .ok tokens ↔
      (Content.read 1 text).fault = none ∧
      tokens = (Content.read 1 text).lexemes.map (·.token ⟨1, file⟩) ++
        (Origin.mark ⟨1, file⟩ .newline (text.length + 1) ::
          if options.marksEnd then [Origin.mark ⟨2, file⟩ .endOfText] else []) := by
  have hresolve : OpenBlocks.resolve options.isStrict [] ∅ = .ok (∅, .closed 0) := by
    cases options.isStrict <;> rfl
  rw [tokenize_eq_ok_iff, h.codeLines_eq, String.toList_ofList, h.split_eq]
  cases hfault : (Content.read 1 text).fault with
  | some fault =>
    have hreport : (CodeLine.mk 1 [] text).fault? file = some (fault.diagnostic ⟨1, file⟩) :=
      congrArg (Option.map _) hfault
    rw [passAll_cons_of_fault hresolve hreport]
    simp
  | none =>
    have hreport : (CodeLine.mk 1 [] text).fault? file = none := congrArg (Option.map _) hfault
    have hcontent : (CodeLine.mk 1 [] text).contentTokens file =
        (Content.read 1 text).lexemes.map (·.token ⟨1, file⟩) ++
          [Origin.mark ⟨1, file⟩ .newline (0 + text.length + 1)] :=
      contentTokens_of_finished hfault
    rw [passAll_cons_of_ok hresolve hreport, hcontent, Nat.zero_add]
    constructor
    · rintro ⟨last, ⟨⟩, rfl⟩
      refine ⟨rfl, ?_⟩
      simp only [passAll, List.append_nil, List.append_assoc]
      rfl
    · rintro ⟨-, rfl⟩
      refine ⟨∅, rfl, ?_⟩
      simp only [passAll, List.append_nil, List.append_assoc]
      rfl

/-- A lexeme of the grammar is read as itself. -/
theorem Lexeme.Formed.tokenize_text {lexeme : Lexeme} (h : lexeme.Formed) :
    tokenize (String.ofList lexeme.text) file options = .ok (tokensOfOne lexeme file options) := by
  have hread : Content.read 1 (lexeme.text ++ []) = _ :=
    Content.read_text_append h 1 (by rintro c ⟨⟩)
  rw [List.append_nil, Content.read_nil] at hread
  rw [tokenize_solid_iff h.solid, hread]
  exact ⟨rfl, rfl⟩

/-- A solid text that is read as one lexeme is this lexeme. -/
theorem Solid.eq_text (h : Solid text) {lexeme : Lexeme}
    (hread : tokenize (String.ofList text) file options = .ok (tokensOfOne lexeme file options)) :
    lexeme.Formed ∧ lexeme.text = text := by
  obtain ⟨hfault, htokens⟩ := (tokenize_solid_iff h).1 hread
  rw [tokensOfOne] at htokens
  obtain ⟨hone, -⟩ := List.append_inj' htokens rfl
  have htext := Content.flatMap_text_read h.clean h.not_blank hfault
  obtain ⟨placed, hplaced, hsame⟩ := List.map_eq_singleton_iff.1 hone.symm
  have heq : placed.lexeme = lexeme := lexeme_eq_of_token_eq hsame
  rw [hplaced, List.flatMap_singleton, heq] at htext
  obtain ⟨rest, hhead⟩ := exists_read?_of_mem_lexemes (hplaced ▸ List.mem_cons_self)
  exact ⟨heq ▸ Lexeme.formed_of_read? hhead, htext⟩

end

theorem made_of_mem_contentTokens {file : Option String} {line : CodeLine} {token : Token}
    (h : token ∈ line.contentTokens file) : token.Made := by
  obtain ⟨placed, hplaced, rfl⟩ | rfl := mem_contentTokens_cases h
  · obtain ⟨rest, hread⟩ := exists_read?_of_mem_lexemes hplaced
    exact .lexeme placed _ (Lexeme.formed_of_read? hread)
  · exact .mark _ _ _

theorem made_of_mem_passAll {strict : Bool} {file : Option String} {lines : List CodeLine}
    {blocks : OpenBlocks} {token : Token} (h : token ∈ (passAll strict file lines blocks).tokens) :
    token.Made := by
  obtain ⟨line, -, before, hmem⟩ := exists_pass_of_mem_passAll h
  obtain ⟨shift, hmark⟩ | hcontent := mem_tokens_pass hmem
  · obtain rfl | rfl := eq_mark_of_mem_marks hmark <;> exact .mark _ _ _
  · exact made_of_mem_contentTokens hcontent

/-- Every token that is handed out is a mark, or stands for a lexeme of the grammar. -/
theorem made_of_mem_run {text : String} {file : Option String} {options : Options} {token : Token}
    (h : token ∈ (Lexer.ofText text file options).run.tokens) : token.Made := by
  have hstream : (Lexer.ofText text file options).run.tokens = _ :=
    congrArg Stream.tokens (stream_ofText text file options)
  rw [hstream] at h
  obtain hpass | ⟨blocks, hclosing⟩ := Passage.mem_tokens_close h
  · exact made_of_mem_passAll hpass
  · obtain rfl | rfl := eq_mark_of_mem_closingTokens hclosing <;> exact .mark _ _ _

theorem made_of_tokenize {text : String} {file : Option String} {options : Options}
    {tokens : List Token} (h : tokenize text file options = .ok tokens) :
    ∀ token ∈ tokens, token.Made := by
  intro token hmem
  have hstream : (Lexer.ofText text file options).run.tokens = tokens :=
    congrArg Stream.tokens (tokenize_eq_ok_iff_stream.1 h)
  rw [← hstream] at hmem
  exact made_of_mem_run hmem

end Offside
