import Offside.Proofs.Layout.Depth
import Offside.Proofs.Reading.Cursor

/-!
# Tokens and lexer in step

A reading can be left at any point, and what has been handed out until then says a good deal about
the lexer that is left. The tokens begin a word of lines and blocks. The number of open blocks can
be counted from them, and the place of the lexer is that of the last of them. All of this holds at
any point of any reading: also amid several blocks that are closed at once, at the end of the text,
and behind a failure.
-/

namespace Offside

/-- The first tokens of a text, and the reader that is left behind them, in step with each other. -/
structure InStep (text : String) (file : Option String) (options : Options) (portion : Portion)
    (reader : Reader) : Prop where
  tokens_append : portion.tokens ++ reader.pending.tokens =
    (Lexer.ofText text file options).run.tokens
  /-- The tokens begin a word: line after line some layout, lexemes and the end of the line, all
      with the same number, and then the end of the text. -/
  exists_textWord : ∃ word, TextWord word ∧ portion.tokens <+: word
  /-- The end of the text is marked only if it is to be, and then once, behind all else, when the
      text has been read without failure. -/
  exists_endMark : ∃ front, portion.tokens = front ++
      (if (Lexer.ofText text file options).run.ending = .finished ∧ options.marksEnd ∧
          reader.pending.tokens = [] then
        [(Lexer.ofText text file options).endOrigin.mark .endOfText] else []) ∧
    ∀ token ∈ front, token.kind ≠ .layout .endOfText
  isMark : ∀ token ∈ portion.tokens, token.isOfLine = false → token.IsMark
  /-- There are as many open blocks as have been opened and not closed; but of the blocks that are
      closed at once, none is open any more when the first token for them is handed out. -/
  depth_eq : reader.lexer.blocks.depth + dedents portion.tokens +
    owed portion.tokens reader.pending.tokens = indents portion.tokens
  /-- Behind any token but one that closes a block, that is the exact difference. -/
  depth_eq_of_ne : (∀ token ∈ portion.tokens.getLast?, token.kind ≠ .layout .dedent) →
    reader.lexer.blocks.depth + dedents portion.tokens = indents portion.tokens
  nested : reader.lexer.blocks.Nested
  standsIn : reader.lexer.StandsIn text.toList
  /-- As long as no token is there, the lexer has not moved. -/
  atStart : portion.stop = .limit → portion.tokens = [] →
    reader.lexer = Lexer.ofText text file options
  /-- Behind a token the lexer stands at the line of this token. -/
  standsAt : portion.stop = .limit → ∀ token ∈ portion.tokens.getLast?,
    reader.lexer.StandsAt token
  /-- Where nothing more is to come, the whole text has been read, or a line has failed. -/
  endsWith : portion.stop ≠ .limit → portion.tokens = (Lexer.ofText text file options).run.tokens ∧
    portion.stop = (Lexer.ofText text file options).run.ending.stop ∧
    reader.lexer.EndsWith (Lexer.ofText text file options).run.ending

/-- A beginning of some tokens has their end only if it is all of them. -/
theorem isPrefix_of_append_eq {tokens rest front marks : List Token}
    (happend : tokens ++ rest = front ++ marks) (hmarks : marks.length ≤ 1)
    (hrest : rest ≠ []) : tokens <+: front := by
  have hlength := congrArg List.length happend
  rw [List.length_append, List.length_append] at hlength
  have hpos := List.length_pos_of_ne_nil hrest
  refine List.prefix_of_prefix_length_le (List.prefix_append tokens rest) ?_ (by omega)
  rw [happend]
  exact List.prefix_append front marks

namespace Reader.Leaves

variable {lexer last : Lexer} {reader left : Reader} {portion : Portion}

theorem exists_endMark (h : reader.Leaves portion left)
    (hreads : Reads lexer reader.pending.stops reader.pending.ending last) :
    ∃ front, portion.tokens = front ++
        (if reader.pending.ending = .finished ∧ lexer.options.marksEnd ∧
          left.pending.tokens = [] then [lexer.endOrigin.mark .endOfText] else []) ∧
      ∀ token ∈ front, token.kind ≠ .layout .endOfText := by
  obtain ⟨front, htokens, hfront⟩ := hreads.exists_endMark
  rw [map_fst_stops, ← h.tokens_append] at htokens
  by_cases hpending : left.pending.tokens = []
  · rw [hpending, List.append_nil] at htokens
    refine ⟨front, ?_, hfront⟩
    simp only [htokens, hpending, and_true]
  · have hlength : (if reader.pending.ending = .finished ∧ lexer.options.marksEnd then
        [lexer.endOrigin.mark .endOfText] else []).length ≤ 1 := by
      split <;> simp
    refine ⟨portion.tokens, by simp only [hpending, and_false, if_false, List.append_nil], ?_⟩
    intro token hmem
    exact hfront token ((isPrefix_of_append_eq htokens hlength hpending).subset hmem)

/-- The tokens of a portion keep pace with the blocks of the lexer that it leaves. -/
theorem depth_eq (h : reader.Leaves portion left) {before : Nat}
    (hdepth : reader.lexer.blocks.depth = before)
    (hpaced : Paced before reader.pending.stops reader.pending.lexer.blocks.depth) :
    left.lexer.blocks.depth + dedents portion.tokens + owed portion.tokens left.pending.tokens =
      before + indents portion.tokens := by
  cases h with
  | inFront hstop htokens hlexer hpending =>
    rw [htokens, hlexer, hdepth]
    rfl
  | @behind front back token hstops hstop htokens hpending =>
    rw [htokens, owed_concat, hpending]
    exact hpaced.depth_eq hstops
  | ended hstop htokens hlexer hpending =>
    have howed : owed portion.tokens [] = 0 := ite_self 0
    rw [hlexer, hpending, howed, htokens, ← map_fst_stops, Nat.add_zero]
    exact hpaced.sum_eq

theorem standsAt (h : reader.Leaves portion left)
    (hstops : ∀ stop ∈ reader.pending.stops, stop.2.StandsAt stop.1)
    (hstop : portion.stop = .limit) :
    ∀ token ∈ portion.tokens.getLast?, left.lexer.StandsAt token := by
  intro token hmem
  cases h with
  | inFront hlimit htokens hlexer hpending =>
    rw [htokens] at hmem
    cases hmem
  | @behind front back found hsplit hlimit htokens hpending =>
    rw [htokens, List.getLast?_concat] at hmem
    cases hmem
    exact hstops (token, left.lexer) (hsplit ▸ List.mem_append_cons_self)
  | ended hover htokens hlexer hpending =>
    exact absurd (hover.symm.trans hstop) (Ending.stop_ne_limit _)

theorem atStart (h : reader.Leaves portion left) (hstop : portion.stop = .limit)
    (htokens : portion.tokens = []) : left.lexer = reader.lexer := by
  cases h with
  | inFront hlimit hnone hlexer hpending => exact hlexer
  | behind hsplit hlimit hsome hpending =>
    rw [htokens] at hsome
    exact absurd hsome.symm (List.concat_ne_nil _ _)
  | ended hover hall hlexer hpending =>
    exact absurd (hover.symm.trans hstop) (Ending.stop_ne_limit _)

theorem ended_of_ne (h : reader.Leaves portion left) (hstop : portion.stop ≠ .limit) :
    portion.tokens = reader.pending.tokens ∧ portion.stop = reader.pending.ending.stop ∧
      left.lexer = reader.pending.lexer := by
  cases h with
  | inFront hlimit htokens hlexer hpending => exact absurd hlimit hstop
  | behind hsplit hlimit htokens hpending => exact absurd hlimit hstop
  | ended hover htokens hlexer hpending => exact ⟨htokens, hover, hlexer⟩

end Reader.Leaves

/-- However many tokens of a text are asked for, what is handed out is in step with the reader that
    is left. -/
theorem inStep_pull (text : String) (file : Option String) (options : Options)
    (limit : Option Nat) :
    InStep text file options ((Reader.ofText text file options).pull limit).1
      ((Reader.ofText text file options).pull limit).2 := by
  have hreads := reads_run (Lexer.ofText text file options)
  have hleaves := (Reader.ofText text file options).leaves_pull limit
  obtain ⟨hstands, hlast⟩ := hreads.standsIn (Lexer.standsIn_ofText text file options)
  obtain ⟨hnested, hnestedLast⟩ := hreads.nested OpenBlocks.nested_empty
  obtain ⟨word, hword, hfront, -⟩ := hreads.exists_textWord
  rw [map_fst_stops] at hfront
  have hinitial := (Reader.ofText text file options).tokens_pull_isPrefix limit
  have hdepth := (hleaves.depth_eq rfl hreads.paced).trans (Nat.zero_add _)
  exact
    { tokens_append := hleaves.tokens_append
      exists_textWord := ⟨word, hword, hinitial.trans hfront⟩
      exists_endMark := hleaves.exists_endMark hreads
      isMark := by
        intro token hmem
        refine hreads.isMark token ?_
        rw [map_fst_stops]
        exact hinitial.subset hmem
      depth_eq := hdepth
      depth_eq_of_ne := by
        intro hlast
        rwa [owed_eq_zero hlast] at hdepth
      nested := @Reader.Leaves.invariant _ _ _ (fun lexer => lexer.blocks.Nested) hleaves
        OpenBlocks.nested_empty hnested hnestedLast
      standsIn := hleaves.invariant (Lexer.standsIn_ofText text file options) hstands hlast
      atStart := hleaves.atStart
      standsAt := hleaves.standsAt hreads.standsAt
      endsWith := by
        intro hstop
        obtain ⟨htokens, hover, hlexer⟩ := hleaves.ended_of_ne hstop
        rw [hlexer]
        exact ⟨htokens, hover, hreads.endsWith⟩ }

/-- Of two blocks that are closed at once, both are closed when the first token for them is there,
    and one more token is to come. -/
theorem inStep_pull_two_blocks : ∃ portion reader,
    (Reader.ofText "a\n  b\n    c\nd").pull (some 9) = (portion, reader) ∧
      InStep "a\n  b\n    c\nd" none {} portion reader ∧
      reader.lexer.blocks.levels = [0] ∧ reader.lexer.position = 12 ∧ reader.lexer.line = 4 ∧
      indents portion.tokens = 2 ∧ dedents portion.tokens = 1 ∧
      owed portion.tokens reader.pending.tokens = 1 :=
  ⟨_, _, rfl, inStep_pull _ none {} (some 9), by decide +kernel, by decide +kernel,
    by decide +kernel, by decide +kernel, by decide +kernel, by decide +kernel⟩

end Offside
