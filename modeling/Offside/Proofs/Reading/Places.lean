import Mathlib.Data.List.TakeWhile
import Offside.Proofs.Layout.BlockStructure
import Offside.Proofs.Reading.Failure
import Offside.Proofs.Reading.Portions
import Offside.Proofs.Text.PhysicalLines

/-!
# The places of tokens

At any point of a reading the tokens handed out so far account for the text: each lexeme stands
in its line at its column, in the order of the line and with nothing but blanks between, and
behind the end of a line nothing with content is left. When the reading succeeds, every line
with content is accounted for to its end, and no other line has a token of its text.
-/

namespace Offside

/-- The tokens that are pieces of one line. -/
def lexemesOn (number : Nat) (tokens : List Token) : List Token :=
  (onLine number tokens).filter fun token => !token.isStructural

/-- Tokens that stand in a text where they say. -/
structure Accounts (text : String) (tokens : List Token) : Prop where
  /-- Every lexeme is found in its line at its column. -/
  lexeme : ∀ token ∈ tokens, token.isStructural = false → ∃ index chars front back,
    (physicalLines text)[index]? = some chars ∧ token.line = (index + 1 : Nat) ∧
      token.value ≠ "" ∧ chars = front ++ token.value.toList ++ back ∧
      token.column = (front.length + 1 : Nat)
  /-- The end of a line stands one column behind its last character. -/
  lineEnd : ∀ token ∈ tokens, token.kind = .layout .newline → ∃ index chars,
    (physicalLines text)[index]? = some chars ∧ token.line = (index + 1 : Nat) ∧
      token.column = (chars.length + 1 : Nat)
  /-- The lexemes of a line stand in it one behind the other with blanks between, and behind
      them is no more content once the end of the line is handed out. -/
  line : ∀ index chars, (physicalLines text)[index]? = some chars →
    ∃ rest, Covers 1 chars (lexemesOn (index + 1) tokens) rest ∧
      ((∃ token ∈ onLine (index + 1) tokens, token.kind = .layout .newline) →
        WithoutContent rest)

/-- Tokens that leave no line with content out, and have none of the text of any other line. -/
structure AccountsForAll (text : String) (tokens : List Token) : Prop where
  without : ∀ index chars, (physicalLines text)[index]? = some chars → WithoutContent chars →
    textOn (index + 1) tokens = []
  content : ∀ index chars, (physicalLines text)[index]? = some chars → ¬ WithoutContent chars →
    lexemesOn (index + 1) tokens ≠ [] ∧ ∃ newline, newline.kind = .layout .newline ∧
      textOn (index + 1) tokens = lexemesOn (index + 1) tokens ++ [newline]

theorem lexemesOn_eq_filter_textOn (number : Nat) (tokens : List Token) :
    lexemesOn number tokens = (textOn number tokens).filter fun token => !token.isStructural := by
  rw [textOn, List.filter_filter, lexemesOn]
  refine List.filter_congr ?_
  intro token _
  cases h : token.isStructural with
  | true => rfl
  | false => rw [isOfLine_of_not_isStructural h]; rfl

section

variable {file : Option String} {line : CodeLine} {tokens : List Token}

theorem column_of_newline {token : Token} (h : token ∈ line.contentTokens file)
    (hkind : token.kind = .layout .newline) :
    token.column = (line.width + line.body.length + 1 : Nat) := by
  obtain ⟨placed, hplaced, rfl⟩ | rfl := mem_contentTokens_cases h
  · have hstructural : (placed.token (line.origin file)).isStructural = false :=
      isStructural_of_mem_lexemes (List.mem_map_of_mem hplaced)
    rw [Token.isStructural, hkind] at hstructural
    cases hstructural
  · rfl

theorem filter_lexemes_append_newline (line : CodeLine) (origin : Origin) (column : Nat) :
    ((line.content.lexemes.map (·.token origin) ++ [origin.mark .newline column]).filter
        fun token => !token.isStructural) =
      line.content.lexemes.map (·.token origin) := by
  have hlexemes : (line.content.lexemes.map (·.token origin)).filter
      (fun token => !token.isStructural) = line.content.lexemes.map (·.token origin) := by
    refine List.filter_eq_self.2 ?_
    intro token hmem
    rw [isStructural_of_mem_lexemes hmem]
    rfl
  have hnewline : [origin.mark .newline column].filter (fun token => !token.isStructural) = [] :=
    rfl
  rw [List.filter_append, hlexemes, hnewline, List.append_nil]

/-- The lexemes of a code line cover it, its indentation included. -/
theorem exists_covers_codeLine (hindent : AllBlank line.indent) (origin : Origin) :
    ∃ rest, Covers 1 (line.indent ++ line.body) (line.content.lexemes.map (·.token origin)) rest ∧
      (line.content.fault = none → WithoutContent rest) := by
  obtain ⟨rest, hcovers, hleft⟩ :=
    Content.exists_covers_read origin (line.width + 1) line.body
  rw [← CodeLine.content] at hcovers hleft
  rw [Nat.add_comm] at hcovers
  obtain ⟨left, more, hall, hmore, rfl⟩ := hcovers.append_blanks hindent
  refine ⟨_, hall, ?_⟩
  intro hfault
  rw [Content.LeavesOver, hfault] at hleft
  exact hleft.append hmore

/-- A line with content that is read to its end has a lexeme. -/
theorem lexemes_ne_nil (hindent : AllBlank line.indent)
    (hcontent : ¬ WithoutContent (line.indent ++ line.body)) (hfault : line.content.fault = none)
    (origin : Origin) : line.content.lexemes.map (·.token origin) ≠ [] := by
  intro hnil
  obtain ⟨rest, hcovers, hleft⟩ := exists_covers_codeLine hindent origin
  rw [hnil] at hcovers
  rw [hcovers.eq_of_nil] at hleft
  exact hcontent (hleft hfault)

/-- Some of the first lexemes of a line cover it as well, and the end is not among them. -/
theorem exists_covers_of_isPrefix_lexemes {text rest : List Char} {lexemes : List Token}
    (hcovers : Covers 1 text lexemes rest)
    (hlexemes : ∀ token ∈ lexemes, token.isStructural = false) (h : tokens <+: lexemes) :
    ∃ rest, Covers 1 text (tokens.filter fun token => !token.isStructural) rest ∧
      ((∃ token ∈ tokens, token.kind = .layout .newline) → WithoutContent rest) := by
  have hself : tokens.filter (fun token => !token.isStructural) = tokens := by
    refine List.filter_eq_self.2 ?_
    intro token hmem
    rw [hlexemes token (h.mem hmem)]
    rfl
  obtain ⟨back, rfl⟩ := h
  obtain ⟨middle, hmiddle⟩ := hcovers.of_append
  refine ⟨middle, by rwa [hself], ?_⟩
  rintro ⟨token, hmem, hkind⟩
  have hlexeme := hlexemes token (List.mem_append_left _ hmem)
  rw [Token.isStructural, hkind] at hlexeme
  cases hlexeme

/-- However many tokens of a line are handed out, its lexemes among them cover it, and nothing
    with content is left when its end is among them. -/
theorem exists_covers_of_isPrefix (hindent : AllBlank line.indent)
    (h : tokens <+: line.contentTokens file) :
    ∃ rest, Covers 1 (line.indent ++ line.body)
        (tokens.filter fun token => !token.isStructural) rest ∧
      ((∃ token ∈ tokens, token.kind = .layout .newline) → WithoutContent rest) := by
  obtain ⟨left, hcovers, hleft⟩ := exists_covers_codeLine hindent (line.origin file)
  have hlexemes : ∀ token ∈ line.content.lexemes.map (·.token (line.origin file)),
      token.isStructural = false := fun _ => isStructural_of_mem_lexemes
  -- The end of the line comes last and only without a fault, so in front of it there are
  -- lexemes only.
  cases hfault : line.content.fault with
  | some fault =>
    rw [contentTokens_of_fault hfault] at h
    exact exists_covers_of_isPrefix_lexemes hcovers hlexemes h
  | none =>
    rw [contentTokens_of_finished hfault, List.prefix_concat_iff] at h
    obtain rfl | h := h
    · refine ⟨left, ?_, fun _ => hleft hfault⟩
      rwa [filter_lexemes_append_newline]
    · exact exists_covers_of_isPrefix_lexemes hcovers hlexemes h

end

section

variable {text : String} {file : Option String} {options : Options} {tokens : List Token}
  {line : CodeLine}

/-- Apart from layout, a passage hands out the contents of its lines one after the other, up to
    where it fails. -/
theorem filter_isOfLine_passAll_isPrefix (strict : Bool) (file : Option String)
    (lines : List CodeLine) (blocks : OpenBlocks) :
    (passAll strict file lines blocks).tokens.filter Token.isOfLine <+:
      lines.flatMap (·.contentTokens file) := by
  induction lines generalizing blocks with
  | nil => exact List.nil_prefix
  | cons line rest ih =>
    rw [List.flatMap_cons]
    cases hresolve : blocks.resolve strict line.indent with
    | error problem =>
      rw [passAll_cons_of_error hresolve]
      exact List.nil_prefix
    | ok result =>
      obtain ⟨next, shift⟩ := result
      cases hfault : line.fault? file with
      | some diagnostic =>
        rw [passAll_cons_of_fault hresolve hfault]
        simp only [List.filter_append, filter_isOfLine_marks, filter_isOfLine_contentTokens,
          List.nil_append, List.prefix_append]
      | none =>
        rw [passAll_cons_of_ok hresolve hfault]
        simp only [List.filter_append, filter_isOfLine_marks, filter_isOfLine_contentTokens,
          List.nil_append, List.prefix_append_right_inj]
        exact ih next

theorem filter_isOfLine_run_isPrefix (text : String) (file : Option String) (options : Options) :
    (Lexer.ofText text file options).run.tokens.filter Token.isOfLine <+:
      (codeLines text).flatMap (·.contentTokens file) := by
  have hpassage := filter_isOfLine_passAll_isPrefix options.isStrict file (codeLines text) ∅
  have htokens := congrArg Stream.tokens (stream_ofText text file options)
  rw [Run.stream] at htokens
  simp only at htokens
  rw [htokens]
  cases houtcome : (passAll options.isStrict file (codeLines text) ∅).outcome with
  | error diagnostic => rwa [Passage.close_of_error houtcome]
  | ok last =>
    rw [Passage.close_of_ok houtcome]
    simp only [List.filter_append, filter_isOfLine_closingTokens, List.append_nil]
    exact hpassage

/-- The tokens of the text of a line are told from those of all others by its number. -/
theorem filter_isOn_codeLine (hmem : line ∈ codeLines text) :
    ((codeLines text).flatMap (·.contentTokens file)).filter (Token.isOn [line]) =
      line.contentTokens file := by
  obtain ⟨before, after, hlines⟩ := List.append_of_mem hmem
  have hparts : codeLines text = before ++ [line] ++ after := by
    rw [hlines, List.append_assoc, List.singleton_append]
  rw [filter_isOn_codeLines hparts, List.flatMap_singleton]

theorem textOn_eq_filter_isOn (line : CodeLine) (tokens : List Token) :
    textOn line.number tokens = (tokens.filter Token.isOfLine).filter (Token.isOn [line]) := by
  rw [textOn, onLine, List.filter_filter, List.filter_filter]
  refine List.filter_congr ?_
  intro token _
  rw [Token.isOn, List.any_cons, List.any_nil, Bool.or_false, Bool.and_comm]

theorem textOn_isPrefix (hmem : line ∈ codeLines text)
    (h : tokens.filter Token.isOfLine <+: (codeLines text).flatMap (·.contentTokens file)) :
    textOn line.number tokens <+: line.contentTokens file := by
  have hline := h.filter (Token.isOn [line])
  rwa [← textOn_eq_filter_isOn, filter_isOn_codeLine hmem] at hline

/-- Every token of the text of a line belongs to a code line. -/
theorem exists_codeLine_of_isOfLine
    (h : tokens.filter Token.isOfLine <+: (codeLines text).flatMap (·.contentTokens file))
    {token : Token} (hmem : token ∈ tokens) (hof : token.isOfLine = true) :
    ∃ line ∈ codeLines text, token ∈ line.contentTokens file :=
  List.mem_flatMap.1 (h.mem (List.mem_filter.2 ⟨hmem, hof⟩))

theorem textOn_eq_nil {number : Nat} (hnone : ∀ line ∈ codeLines text, line.number ≠ number)
    (h : tokens.filter Token.isOfLine <+: (codeLines text).flatMap (·.contentTokens file)) :
    textOn number tokens = [] := by
  rw [textOn, List.filter_eq_nil_iff]
  intro token hmem hof
  obtain ⟨hmem, hline⟩ := List.mem_filter.1 hmem
  obtain ⟨line, hcode, hcontent⟩ := exists_codeLine_of_isOfLine h hmem hof
  have hnumber := line_contentTokens hcontent
  rw [decide_eq_true_eq] at hline
  exact hnone line hcode (by omega)

/-- A physical line that is not a code line has no number of a code line. -/
theorem number_ne_of_withoutContent {index : Nat} {chars : List Char}
    (hchars : (physicalLines text)[index]? = some chars) (h : WithoutContent chars) :
    ∀ line ∈ codeLines text, line.number ≠ index + 1 := by
  rintro line hline hnumber
  obtain ⟨other, found, hfound, hcontent, rfl⟩ := mem_codeLines_iff.1 hline
  obtain rfl : other = index := Nat.succ.inj hnumber
  obtain rfl : chars = found := Option.some.inj (hchars.symm.trans hfound)
  exact hcontent h

/-- The lexemes handed out of a physical line cover it, and leave nothing with content over once
    its end is handed out. -/
theorem exists_covers_physicalLine
    (h : tokens.filter Token.isOfLine <+: (codeLines text).flatMap (·.contentTokens file))
    {index : Nat} {chars : List Char} (hchars : (physicalLines text)[index]? = some chars) :
    ∃ rest, Covers 1 chars (lexemesOn (index + 1) tokens) rest ∧
      ((∃ token ∈ onLine (index + 1) tokens, token.kind = .layout .newline) →
        WithoutContent rest) := by
  rw [lexemesOn_eq_filter_textOn]
  by_cases hcontent : WithoutContent chars
  · have hnil := textOn_eq_nil (number_ne_of_withoutContent hchars hcontent) h
    rw [hnil]
    exact ⟨chars, .nil 1 chars, fun _ => hcontent⟩
  · have hmem : codeLineAt index chars ∈ codeLines text :=
      mem_codeLines_iff.2 ⟨index, chars, hchars, hcontent, rfl⟩
    have hcovers := exists_covers_of_isPrefix (allBlank_indent_codeLineAt index chars)
      (textOn_isPrefix hmem h)
    rw [codeLineAt_indent_append_body] at hcovers
    obtain ⟨rest, hrest, hend⟩ := hcovers
    refine ⟨rest, hrest, ?_⟩
    rintro ⟨token, htoken, hkind⟩
    exact hend ⟨token, List.mem_filter.2 ⟨htoken, isOfLine_of_newline hkind⟩, hkind⟩

theorem accounts_of_isPrefix
    (h : tokens.filter Token.isOfLine <+: (codeLines text).flatMap (·.contentTokens file)) :
    Accounts text tokens := by
  refine ⟨?_, ?_, fun index chars hchars => exists_covers_physicalLine h hchars⟩
  · intro token hmem hlexeme
    obtain ⟨line, hcode, htoken⟩ :=
      exists_codeLine_of_isOfLine h hmem (isOfLine_of_not_isStructural hlexeme)
    have hnumber := line_contentTokens htoken
    obtain ⟨index, chars, hchars, -, rfl⟩ := mem_codeLines_iff.1 hcode
    obtain ⟨rest, hcovers, -⟩ := exists_covers_physicalLine h hchars
    have hon : token ∈ lexemesOn (index + 1) tokens := by
      refine List.mem_filter.2 ⟨List.mem_filter.2 ⟨hmem, decide_eq_true hnumber⟩, ?_⟩
      rw [hlexeme]
      rfl
    obtain ⟨hvalue, front, back, hsplit, hcolumn⟩ := hcovers.exists_place hon
    rw [Nat.add_comm] at hcolumn
    exact ⟨index, chars, front, back, hchars, hnumber, hvalue, hsplit, hcolumn⟩
  · intro token hmem hkind
    obtain ⟨line, hcode, htoken⟩ := exists_codeLine_of_isOfLine h hmem (isOfLine_of_newline hkind)
    have hnumber := line_contentTokens htoken
    obtain ⟨index, chars, hchars, -, rfl⟩ := mem_codeLines_iff.1 hcode
    refine ⟨index, chars, hchars, hnumber, ?_⟩
    rw [column_of_newline htoken hkind, CodeLine.width, ← List.length_append,
      codeLineAt_indent_append_body]

theorem accountsForAll_of_tokenize (h : tokenize text file options = .ok tokens) :
    AccountsForAll text tokens := by
  have hall := filter_isOfLine_of_tokenize h
  obtain ⟨last, houtcome, -⟩ := tokenize_eq_ok_iff.1 h
  obtain ⟨-, hfault⟩ := outcome_passAll_eq_ok_iff.1 houtcome
  have hread : tokens.filter Token.isOfLine <+:
      (codeLines text).flatMap (·.contentTokens file) := ⟨[], (List.append_nil _).trans hall⟩
  constructor
  · intro index chars hchars hcontent
    exact textOn_eq_nil (number_ne_of_withoutContent hchars hcontent) hread
  · intro index chars hchars hcontent
    have hmem : codeLineAt index chars ∈ codeLines text :=
      mem_codeLines_iff.2 ⟨index, chars, hchars, hcontent, rfl⟩
    have htext : textOn (index + 1) tokens = _ :=
      textOn_eq_filter_isOn (codeLineAt index chars) tokens
    rw [hall, filter_isOn_codeLine hmem, contentTokens_of_finished (hfault _ hmem)] at htext
    rw [lexemesOn_eq_filter_textOn, htext, filter_lexemes_append_newline]
    obtain ⟨hindent, hcode⟩ := indent_and_content_of_mem_codeLines hmem
    exact ⟨lexemes_ne_nil hindent hcode (hfault _ hmem) _, _, rfl, rfl⟩

/-- At any point of a reading the tokens handed out stand in the text where they say, one behind
    the other, and nothing but blanks and comments is left out. A reading that succeeds accounts
    for every line with content. -/
theorem accounts_pull (text : String) (file : Option String) (options : Options) :
    (∀ limit, Accounts text ((Reader.ofText text file options).pull limit).1.tokens) ∧
      ∀ tokens, tokenize text file options = .ok tokens → AccountsForAll text tokens := by
  constructor
  · intro limit
    have hpulled := (Reader.ofText text file options).tokens_pull_isPrefix limit
    exact accounts_of_isPrefix
      ((hpulled.filter Token.isOfLine).trans (filter_isOfLine_run_isPrefix text file options))
  · intro tokens h
    exact accountsForAll_of_tokenize h

theorem accounts_pull_comment_behind : ∃ tokens,
    tokenize "x = 1 # one\r\n\n" = .ok tokens ∧ textOn 2 tokens = [] ∧
      ∃ newline, newline.kind = .layout .newline ∧
        textOn 1 tokens = lexemesOn 1 tokens ++ [newline] := by
  obtain ⟨tokens, h⟩ : ∃ tokens, tokenize "x = 1 # one\r\n\n" = .ok tokens :=
    exists_tokenize_eq_ok (by decide +kernel)
  have haccounts := (accounts_pull "x = 1 # one\r\n\n" none {}).2 tokens h
  have hlines : physicalLines "x = 1 # one\r\n\n" = ["x = 1 # one".toList, [], []] := by
    decide +kernel
  have hcontent : ¬ WithoutContent "x = 1 # one".toList := by
    intro hwithout
    exact absurd (withoutContent_iff.1 hwithout 'x' rfl) (by decide)
  have hempty : WithoutContent [] := ⟨[], [], rfl, List.forall_mem_nil _, .inl rfl⟩
  refine ⟨tokens, h, haccounts.without 1 [] ?_ hempty, (haccounts.content 0 _ ?_ hcontent).2⟩
  · rw [hlines]
    rfl
  · rw [hlines]
    rfl

end

end Offside
