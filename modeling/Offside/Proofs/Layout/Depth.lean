import Offside.Proofs.Layout.Brackets
import Offside.Proofs.Reading.Stops

/-!
# Depth and layout tokens

The blocks of a lexer change before the tokens for the change are handed out. Where a block is
opened that is one token, and they agree as soon as it is there. Where several blocks are closed at
once, they are all closed when the first token for it is handed out, and the others are owed. So
the depth of the open blocks can be told from the tokens at any point.
-/

namespace Offside

def Token.isDedent (token : Token) : Bool :=
  token.kind = .layout .dedent

/-- How many more blocks are closed by the tokens that come next, when the last token that was
    handed out closes a block too. All of these blocks have been closed with the first of them. -/
def owed (handed pending : List Token) : Nat :=
  if handed.getLast?.any Token.isDedent then (pending.takeWhile Token.isDedent).length else 0

/-- Tokens that agree with the depth of the open blocks, from some depth to another. Behind the
    token for an opened block there is one more of them, behind each of the tokens for closed blocks
    as many as there are behind the last of these, and behind any other token as many as before. -/
inductive Paced : Nat → List (Token × Lexer) → Nat → Prop where
  | nil (depth : Nat) : Paced depth [] depth
  | opened {depth after : Nat} {token : Token} {lexer : Lexer} {rest : List (Token × Lexer)}
      (hkind : token.kind = .layout .indent) (hdepth : lexer.blocks.depth = depth + 1)
      (hrest : Paced (depth + 1) rest after) : Paced depth ((token, lexer) :: rest) after
  | closed {depth after : Nat} {closing rest : List (Token × Lexer)}
      (hclosing : ∀ stop ∈ closing, stop.1.kind = .layout .dedent ∧ stop.2.blocks.depth = depth)
      (hnext : ∀ stop ∈ rest.head?, stop.1.kind ≠ .layout .dedent)
      (hrest : Paced depth rest after) : Paced (depth + closing.length) (closing ++ rest) after
  | other {depth after : Nat} {token : Token} {lexer : Lexer} {rest : List (Token × Lexer)}
      (hkind : token.kind ≠ .layout .indent ∧ token.kind ≠ .layout .dedent)
      (hdepth : lexer.blocks.depth = depth) (hrest : Paced depth rest after) :
      Paced depth ((token, lexer) :: rest) after

theorem owed_concat (front : List Token) (token : Token) (pending : List Token) :
    owed (front ++ [token]) pending = owed [token] pending := by
  rw [owed, owed, List.getLast?_concat, List.getLast?_singleton]

/-- Behind a token that closes no block, nothing is owed. -/
theorem owed_eq_zero {handed : List Token}
    (h : ∀ token ∈ handed.getLast?, token.kind ≠ .layout .dedent) (pending : List Token) :
    owed handed pending = 0 := by
  refine if_neg ?_
  rw [Option.any_eq_true]
  rintro ⟨token, hmem, hdedent⟩
  exact h token hmem (of_decide_eq_true hdedent)

theorem owed_of_ne {token : Token} (h : token.kind ≠ .layout .dedent) (pending : List Token) :
    owed [token] pending = 0 :=
  owed_eq_zero (by simpa using h) pending

theorem dedents_of_forall {tokens : List Token}
    (h : ∀ token ∈ tokens, token.kind = .layout .dedent) :
    dedents tokens = tokens.length ∧ indents tokens = 0 := by
  refine ⟨List.countP_eq_length.2 ?_, List.countP_eq_zero.2 ?_⟩
  · intro token hmem
    exact decide_eq_true (h token hmem)
  · intro token hmem
    rw [h token hmem]
    decide

theorem owed_of_forall {token : Token} {closing pending : List Token}
    (hkind : token.kind = .layout .dedent)
    (hclosing : ∀ token ∈ closing, token.kind = .layout .dedent)
    (hnext : ∀ token ∈ pending.head?, token.kind ≠ .layout .dedent) :
    owed [token] (closing ++ pending) = closing.length := by
  have hstop : pending.takeWhile Token.isDedent = [] := by
    cases pending with
    | nil => rfl
    | cons first rest =>
      exact List.takeWhile_cons_of_neg (by simpa [Token.isDedent] using hnext first rfl)
  have hall : ∀ token ∈ closing, token.isDedent = true := by
    intro token hmem
    exact decide_eq_true (hclosing token hmem)
  rw [owed, List.getLast?_singleton, Option.any_some, Token.isDedent, if_pos (by simpa using hkind),
    List.takeWhile_append_of_pos hall, hstop, List.append_nil]

theorem indents_singleton (token : Token) :
    indents [token] = if token.kind = .layout .indent then 1 else 0 := by
  simp [indents, List.countP_cons]

theorem dedents_singleton (token : Token) :
    dedents [token] = if token.kind = .layout .dedent then 1 else 0 := by
  simp [dedents, List.countP_cons]

theorem indents_cons (token : Token) (tokens : List Token) :
    indents (token :: tokens) =
      (if token.kind = .layout .indent then 1 else 0) + indents tokens := by
  rw [← indents_singleton]
  exact indents_append [token] tokens

theorem dedents_cons (token : Token) (tokens : List Token) :
    dedents (token :: tokens) =
      (if token.kind = .layout .dedent then 1 else 0) + dedents tokens := by
  rw [← dedents_singleton]
  exact dedents_append [token] tokens

namespace Paced

variable {before after depth : Nat} {stops closing front left rest : List (Token × Lexer)}
  {token : Token} {lexer : Lexer}

theorem dedents_closing (h : ∀ stop ∈ closing, stop.1.kind = .layout .dedent ∧
      stop.2.blocks.depth = depth) :
    dedents (closing.map Prod.fst) = closing.length ∧ indents (closing.map Prod.fst) = 0 := by
  rw [← List.length_map Prod.fst]
  refine dedents_of_forall ?_
  intro token hmem
  obtain ⟨stop, hstop, rfl⟩ := List.mem_map.1 hmem
  exact (h stop hstop).1

/-- Among the tokens for blocks that are closed at once, each owes those behind it. -/
theorem depth_eq_of_closing
    (h : ∀ stop ∈ front ++ (token, lexer) :: left, stop.1.kind = .layout .dedent ∧
      stop.2.blocks.depth = depth)
    (hnext : ∀ stop ∈ rest.head?, stop.1.kind ≠ .layout .dedent) :
    lexer.blocks.depth + dedents (front.map Prod.fst ++ [token]) +
        owed [token] ((left ++ rest).map Prod.fst) =
      depth + (front ++ (token, lexer) :: left).length +
        indents (front.map Prod.fst ++ [token]) := by
  obtain ⟨hfront, hbehind⟩ := List.forall_mem_append.1 h
  obtain ⟨⟨hkind, hdepth⟩, hleft⟩ := List.forall_mem_cons.1 hbehind
  simp only at hkind hdepth
  obtain ⟨hall, hnone⟩ := dedents_closing hfront
  have howed : owed [token] ((left ++ rest).map Prod.fst) = left.length := by
    rw [List.map_append, ← List.length_map Prod.fst]
    refine owed_of_forall hkind ?_ ?_
    · intro later hmem
      obtain ⟨stop, hstop, rfl⟩ := List.mem_map.1 hmem
      exact (hleft stop hstop).1
    · intro later hmem
      rw [List.head?_map, Option.mem_def, Option.map_eq_some_iff] at hmem
      obtain ⟨stop, hstop, rfl⟩ := hmem
      exact hnext stop hstop
  rw [dedents_append, indents_append, hall, hnone, howed, dedents_singleton, indents_singleton,
    if_pos hkind, if_neg (by simp [hkind]), List.length_append, List.length_cons]
  omega

/-- Behind any token there are as many open blocks as have been opened and not closed, but those
    are closed already for which tokens are owed. -/
theorem depth_eq (h : Paced before stops after) {back : List (Token × Lexer)}
    (hsplit : stops = front ++ (token, lexer) :: back) :
    lexer.blocks.depth + dedents (front.map Prod.fst ++ [token]) +
        owed [token] (back.map Prod.fst) =
      before + indents (front.map Prod.fst ++ [token]) := by
  induction h generalizing front with
  | nil depth =>
    exact absurd hsplit.symm (List.append_ne_nil_of_right_ne_nil _ (List.cons_ne_nil _ _))
  | @opened depth after first start rest hkind hdepth hrest ih =>
    have hne : first.kind ≠ .layout .dedent := by simp [hkind]
    cases front with
    | nil =>
      cases hsplit
      simp [hdepth, owed_of_ne hne, indents_singleton, dedents_singleton, hkind]
    | cons head front =>
      cases hsplit
      have hbehind := ih rfl
      rw [List.map_cons, List.cons_append, indents_cons, dedents_cons, if_pos hkind, if_neg hne]
      omega
  | @other depth after first start rest hkind hdepth hrest ih =>
    cases front with
    | nil =>
      cases hsplit
      simp [hdepth, owed_of_ne hkind.2, indents_singleton, dedents_singleton, hkind]
    | cons head front =>
      cases hsplit
      have hbehind := ih rfl
      rw [List.map_cons, List.cons_append, indents_cons, dedents_cons, if_neg hkind.1,
        if_neg hkind.2]
      omega
  | @closed depth after closing rest hclosing hnext hrest ih =>
    obtain ⟨behind, rfl, hbehind⟩ | ⟨left, rfl, hleft⟩ := List.append_eq_append_iff.1 hsplit
    · -- The tokens for these blocks are all in front of the token.
      have hlater := ih hbehind
      obtain ⟨hall, hnone⟩ := dedents_closing hclosing
      rw [List.map_append, List.append_assoc, dedents_append, indents_append, hall, hnone]
      omega
    · cases left with
      | nil =>
        have hlater := @ih [] hleft.symm
        obtain ⟨hall, hnone⟩ := dedents_closing hclosing
        rw [List.append_nil] at hall hnone ⊢
        rw [dedents_append, indents_append, hall, hnone]
        rw [List.map_nil, List.nil_append] at hlater
        omega
      | cons stop left =>
        -- It is one of them, and those behind it are owed.
        cases hleft
        exact depth_eq_of_closing hclosing hnext

/-- Behind all tokens there are as many open blocks as have been opened and not closed. -/
theorem sum_eq (h : Paced before stops after) :
    after + dedents (stops.map Prod.fst) = before + indents (stops.map Prod.fst) := by
  induction h with
  | nil depth => rfl
  | opened hkind hdepth hrest ih =>
    rw [List.map_cons, indents_cons, dedents_cons, if_pos hkind, if_neg (by simp [hkind])]
    omega
  | other hkind hdepth hrest ih =>
    rw [List.map_cons, indents_cons, dedents_cons, if_neg hkind.1, if_neg hkind.2]
    omega
  | closed hclosing hnext hrest ih =>
    obtain ⟨hall, hnone⟩ := dedents_closing hclosing
    rw [List.map_append, indents_append, dedents_append, hall, hnone]
    omega

/-- Tokens of other kinds leave the blocks as they are. -/
theorem append_others {tokens : List Token} (hdepth : lexer.blocks.depth = before)
    (hkind : ∀ token ∈ tokens, token.kind ≠ .layout .indent ∧ token.kind ≠ .layout .dedent)
    (hrest : Paced before rest after) : Paced before (tokens.map (·, lexer) ++ rest) after := by
  induction tokens with
  | nil => exact hrest
  | cons token tokens ih =>
    obtain ⟨htoken, htokens⟩ := List.forall_mem_cons.1 hkind
    exact .other htoken hdepth (ih htokens)

theorem append_replicate (hdepth : lexer.blocks.depth = depth) (count : Nat) (origin : Origin)
    (hnext : ∀ stop ∈ rest.head?, stop.1.kind ≠ .layout .dedent)
    (hrest : Paced depth rest after) :
    Paced (depth + count)
      ((List.replicate count (origin.mark .dedent)).map (·, lexer) ++ rest) after := by
  have hclosing : ∀ stop ∈ (List.replicate count (origin.mark .dedent)).map (·, lexer),
      stop.1.kind = .layout .dedent ∧ stop.2.blocks.depth = depth := by
    intro stop hmem
    obtain ⟨token, htoken, rfl⟩ := List.mem_map.1 hmem
    rw [List.eq_of_mem_replicate htoken]
    exact ⟨rfl, hdepth⟩
  have hpaced := Paced.closed hclosing hnext hrest
  rwa [List.length_map, List.length_replicate] at hpaced

theorem append_marks {blocks : OpenBlocks} {strict : Bool} {indent : List Char}
    {shift : OpenBlocks.Shift} (origin : Origin)
    (hresolve : blocks.resolve strict indent = .ok (lexer.blocks, shift))
    (hnext : ∀ stop ∈ rest.head?, stop.1.kind ≠ .layout .dedent)
    (hrest : Paced lexer.blocks.depth rest after) :
    Paced blocks.depth ((shift.marks origin).map (·, lexer) ++ rest) after := by
  obtain ⟨inner, hsplit, -, -, -, -, rfl⟩ | ⟨-, -, hblocks, rfl⟩ :=
    OpenBlocks.resolve_eq_ok hresolve
  · rw [OpenBlocks.depth_eq_of_split hsplit]
    exact append_replicate rfl inner.length origin hnext hrest
  · have hdepth : lexer.blocks.depth = blocks.depth + 1 := congrArg OpenBlocks.depth hblocks
    rw [hdepth] at hrest
    exact .opened rfl hdepth hrest

end Paced

/-- A line that fits keeps pace, if something on it separates its layout from that of the next
    line, or if there is no next line. -/
theorem Lexer.Fits.paced_tokens {lexer : Lexer} {line : Line} {lines : List Line}
    {next : OpenBlocks} {shift : OpenBlocks.Shift} {rest : List (Token × Lexer)} {after : Nat}
    (h : lexer.Fits line lines next shift)
    (hsome : (lexer.codeLine line).contentTokens lexer.file ≠ [] ∨ rest = [])
    (hrest : Paced next.depth rest after) :
    Paced lexer.blocks.depth
      (((lexer.codeLine line).tokens lexer.file shift).map (·, lexer.settled next) ++ rest)
      after := by
  have hcontent : ∀ token ∈ (lexer.codeLine line).contentTokens lexer.file,
      token.kind ≠ .layout .indent ∧ token.kind ≠ .layout .dedent :=
    fun _ hmem => kind_ne_of_mem_contentTokens hmem
  have hpaced := @Paced.append_others _ _ _ (lexer.settled next) _ rfl hcontent hrest
  rw [CodeLine.tokens, List.map_append, List.append_assoc]
  refine Paced.append_marks _ h.resolve_eq ?_ hpaced
  intro stop hstop
  cases htokens : (lexer.codeLine line).contentTokens lexer.file with
  | nil =>
    obtain hsome | hsome := hsome
    · exact absurd htokens hsome
    · rw [htokens, hsome] at hstop
      cases hstop
  | cons token tokens =>
    rw [htokens] at hstop hcontent
    cases hstop
    exact (hcontent token List.mem_cons_self).2

/-- At the end of a text all open blocks are closed with the first token for it. -/
theorem paced_closingTokens (lexer : Lexer) :
    Paced lexer.blocks.depth
      ((closingTokens lexer.origin lexer.options.marksEnd lexer.blocks).map (·, lexer.settled ∅))
      0 := by
  rw [closingTokens, List.map_append]
  generalize hend : (if lexer.options.marksEnd then [lexer.origin.mark .endOfText] else []) = marks
  have hkind : ∀ token ∈ marks,
      token.kind ≠ .layout .indent ∧ token.kind ≠ .layout .dedent := by
    rw [← hend]
    exact fun _ hmem => kind_ne_of_mem_endMarks hmem
  have hmarks : Paced 0 (marks.map (·, lexer.settled ∅)) 0 := by
    rw [← List.append_nil (marks.map (·, lexer.settled ∅))]
    exact .append_others rfl hkind (.nil 0)
  have hnext : ∀ stop ∈ (marks.map (·, lexer.settled ∅)).head?, stop.1.kind ≠ .layout .dedent := by
    intro stop hstop
    obtain ⟨token, hmem, rfl⟩ := List.mem_map.1 (List.mem_of_mem_head? hstop)
    exact (hkind token hmem).2
  have hdepth : (lexer.settled ∅).blocks.depth = 0 := rfl
  have hpaced := hmarks.append_replicate hdepth lexer.blocks.depth lexer.origin hnext
  rwa [Nat.zero_add] at hpaced

/-- What a lexer hands out agrees with the depth of its open blocks, from where it starts to where
    the reading ends. -/
theorem Reads.paced {lexer last : Lexer} {stops : List (Token × Lexer)} {ending : Ending}
    (h : Reads lexer stops ending last) : Paced lexer.blocks.depth stops last.blocks.depth := by
  induction h with
  | closed hahead => exact paced_closingTokens _
  | blank hahead hcode hrest ih => exact ih
  | misfit hahead hcode hresolve => exact .nil _
  | fault hfits hfault =>
    have hpaced := hfits.paced_tokens (.inr rfl) (.nil _)
    rwa [List.append_nil] at hpaced
  | line hfits hfault hrest ih => exact hfits.paced_tokens (.inl (contentTokens_ne_nil hfault)) ih

end Offside
