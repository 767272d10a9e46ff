import Mathlib.Data.List.Basic
import Offside.Proofs.Layout.Blocks
import Offside.Proofs.Reading.Passage

/-!
# Layout tokens as brackets

The tokens that open and close blocks are read as brackets. `Walks` follows how many blocks
are open along a list of tokens; a list is balanced when it walks from none to none. Passages
walk from the depth of the blocks in front of them to the depth of those behind.
-/

namespace Offside

def indents (tokens : List Token) : Nat :=
  tokens.countP fun token => token.kind = .layout .indent

def dedents (tokens : List Token) : Nat :=
  tokens.countP fun token => token.kind = .layout .dedent

/-- The layout tokens are balanced brackets: no beginning of the list closes more blocks than
    it opens, and the whole list closes as many as it opens. -/
structure Balanced (tokens : List Token) : Prop where
  dedents_le : ∀ front, front <+: tokens → dedents front ≤ indents front
  dedents_eq : dedents tokens = indents tokens

/-- With `before` blocks open in front of some tokens, none is closed that is not open, and
    `after` blocks are open behind them. -/
structure Walks (before : Nat) (tokens : List Token) (after : Nat) : Prop where
  dedents_le : ∀ front, front <+: tokens → dedents front ≤ before + indents front
  sum_eq : before + indents tokens = after + dedents tokens

@[simp] theorem indents_append (front back : List Token) :
    indents (front ++ back) = indents front + indents back :=
  List.countP_append

@[simp] theorem dedents_append (front back : List Token) :
    dedents (front ++ back) = dedents front + dedents back :=
  List.countP_append

theorem balanced_iff_walks {tokens : List Token} : Balanced tokens ↔ Walks 0 tokens 0 := by
  constructor
  · rintro ⟨hle, heq⟩
    refine ⟨?_, by omega⟩
    intro front hfront
    have := hle front hfront
    omega
  · rintro ⟨hle, heq⟩
    refine ⟨?_, by omega⟩
    intro front hfront
    have := hle front hfront
    omega

/-- A balanced list ends at most once at a closing bracket: were there two such ends, the
    shorter list with its closing bracket would be a beginning of the longer one. -/
theorem balanced_unique {inner inner' back back' : List Token} {closing closing' : Token}
    (h : inner ++ closing :: back = inner' ++ closing' :: back')
    (hinner : Balanced inner) (hinner' : Balanced inner')
    (hclosing : closing.kind = .layout .dedent) (hclosing' : closing'.kind = .layout .dedent) :
    inner = inner' := by
  have hshort {short long : List Token} {bracket : Token} {rest : List Token}
      (hs : Balanced short) (hl : Balanced long) (hb : bracket.kind = .layout .dedent)
      (hlong : long = short ++ bracket :: rest) : False := by
    have hle := hl.dedents_le (short ++ [bracket]) ⟨rest, by simp [hlong]⟩
    have heq := hs.dedents_eq
    have hone : indents [bracket] = 0 ∧ dedents [bracket] = 1 := by
      simp [indents, dedents, hb]
    simp only [indents_append, dedents_append, hone] at hle
    omega
  rcases List.append_eq_append_iff.1 h with ⟨rest, hlong, htail⟩ | ⟨rest, hlong, htail⟩
  · cases rest with
    | nil => simp [hlong]
    | cons bracket rest =>
      obtain rfl := (List.cons.inj htail).1
      exact (hshort hinner hinner' hclosing hlong).elim
  · cases rest with
    | nil => simp [hlong]
    | cons bracket rest =>
      obtain rfl := (List.cons.inj htail).1
      exact (hshort hinner' hinner hclosing' hlong).elim

/-- An opening bracket with the closing one that belongs to it: what stands between them is
    balanced. -/
structure BracketPair (tokens : List Token) where
  front : List Token
  opening : Token
  inner : List Token
  closing : Token
  back : List Token
  tokens_eq : tokens = front ++ opening :: (inner ++ closing :: back)
  opens : opening.kind = .layout .indent
  closes : closing.kind = .layout .dedent
  balanced : Balanced inner

theorem BracketPair.opening_mem {tokens : List Token} (pair : BracketPair tokens) :
    pair.opening ∈ tokens := by
  obtain ⟨front, opening, inner, closing, back, rfl, _, _, _⟩ := pair
  exact List.mem_append_right _ List.mem_cons_self

theorem BracketPair.eq_of_front {tokens : List Token} {pair other : BracketPair tokens}
    (h : pair.front = other.front) : pair = other := by
  obtain ⟨front, opening, inner, closing, back, htokens, _, hcloses, hbalanced⟩ := pair
  obtain ⟨front', opening', inner', closing', back', htokens', _, hcloses', hbalanced'⟩ := other
  obtain rfl : front = front' := h
  rw [htokens] at htokens'
  obtain ⟨rfl, htail⟩ := List.cons.inj (List.append_cancel_left htokens')
  obtain rfl := balanced_unique htail hbalanced hbalanced' hcloses hcloses'
  obtain ⟨rfl, rfl⟩ := List.cons.inj (List.append_cancel_left htail)
  rfl

theorem Walks.append {a b c : Nat} {front back : List Token} (hfront : Walks a front b)
    (hback : Walks b back c) : Walks a (front ++ back) c := by
  have hsum := hfront.sum_eq
  constructor
  · intro start hstart
    rcases List.prefix_or_prefix_of_prefix hstart (List.prefix_append front back) with h | h
    · exact hfront.dedents_le start h
    · obtain ⟨rest, rfl⟩ := h
      have hrest := hback.dedents_le rest ((List.prefix_append_right_inj front).1 hstart)
      simp only [indents_append, dedents_append]
      omega
  · have hsum' := hback.sum_eq
    simp only [indents_append, dedents_append]
    omega

/-- Where enough blocks are open in front for all that are closed, only the sum matters. -/
theorem walks_of_dedents_le {before after : Nat} {tokens : List Token}
    (hle : dedents tokens ≤ before) (hsum : before + indents tokens = after + dedents tokens) :
    Walks before tokens after := by
  refine ⟨?_, hsum⟩
  intro front hfront
  have hcount : dedents front ≤ dedents tokens := hfront.sublist.countP_le
  omega

theorem walks_of_forall_ne {tokens : List Token} (depth : Nat)
    (h : ∀ token ∈ tokens, token.kind ≠ .layout .indent ∧ token.kind ≠ .layout .dedent) :
    Walks depth tokens depth := by
  have hindents : indents tokens = 0 := by
    refine List.countP_eq_zero.2 ?_
    intro token hmem
    simpa using (h token hmem).1
  have hdedents : dedents tokens = 0 := by
    refine List.countP_eq_zero.2 ?_
    intro token hmem
    simpa using (h token hmem).2
  exact walks_of_dedents_le (by omega) (by omega)

theorem walks_indent (depth : Nat) (origin : Origin) :
    Walks depth [origin.mark .indent] (depth + 1) := by
  have hnone : dedents [origin.mark .indent] = 0 := rfl
  have hone : indents [origin.mark .indent] = 1 := rfl
  exact walks_of_dedents_le (by omega) (by omega)

theorem walks_replicate (depth count : Nat) (origin : Origin) :
    Walks (depth + count) (List.replicate count (origin.mark .dedent)) depth := by
  have hcount : dedents (List.replicate count (origin.mark .dedent)) = count := by
    simp [dedents, List.countP_replicate, Origin.mark]
  have hnone : indents (List.replicate count (origin.mark .dedent)) = 0 := by
    simp [indents, List.countP_replicate, Origin.mark]
  exact walks_of_dedents_le (by omega) (by omega)

/-- What is from the text of a line is no bracket. -/
theorem kind_ne_of_mem_contentTokens {file : Option String} {line : CodeLine} {token : Token}
    (h : token ∈ line.contentTokens file) :
    token.kind ≠ .layout .indent ∧ token.kind ≠ .layout .dedent := by
  obtain hkind | hkind := isStructural_contentTokens h
  · simp [hkind]
  · constructor <;> intro heq <;> simp [heq, Kind.isStructural] at hkind

/-- The mark of the end of a text is no bracket. -/
theorem kind_ne_of_mem_endMarks {origin : Origin} {marksEnd : Bool} {token : Token}
    (h : token ∈ if marksEnd then [origin.mark .endOfText] else []) :
    token.kind ≠ .layout .indent ∧ token.kind ≠ .layout .dedent := by
  split at h
  · rw [List.mem_singleton.1 h]
    exact ⟨by simp [Origin.mark], by simp [Origin.mark]⟩
  · cases h

theorem walks_contentTokens (depth : Nat) (file : Option String) (line : CodeLine) :
    Walks depth (line.contentTokens file) depth :=
  walks_of_forall_ne depth fun _ hmem => kind_ne_of_mem_contentTokens hmem

/-- What a line that fits does to the depth of the open blocks, its marks show. -/
theorem walks_marks {strict : Bool} {indent : List Char} {blocks next : OpenBlocks}
    {shift : OpenBlocks.Shift} (h : blocks.resolve strict indent = .ok (next, shift))
    (origin : Origin) : Walks blocks.depth (shift.marks origin) next.depth := by
  obtain ⟨inner, hsplit, -, -, -, -, rfl⟩ | ⟨-, -, rfl, rfl⟩ := OpenBlocks.resolve_eq_ok h
  · rw [OpenBlocks.depth_eq_of_split hsplit]
    exact walks_replicate _ _ _
  · exact walks_indent _ _

theorem walks_passAll {strict : Bool} {file : Option String} {lines : List CodeLine}
    {blocks last : OpenBlocks} (hok : (passAll strict file lines blocks).outcome = .ok last) :
    Walks blocks.depth (passAll strict file lines blocks).tokens last.depth := by
  induction lines generalizing blocks with
  | nil =>
    cases hok
    exact walks_of_forall_ne _ (by simp [passAll])
  | cons line rest ih =>
    obtain ⟨next, shift, hresolve, -, hrest, htokens⟩ := outcome_passAll_cons_eq_ok hok
    rw [htokens]
    exact ((walks_marks hresolve _).append (walks_contentTokens _ _ _)).append (ih hrest)

theorem walks_closingTokens (origin : Origin) (marksEnd : Bool) (blocks : OpenBlocks) :
    Walks blocks.depth (closingTokens origin marksEnd blocks) 0 := by
  rw [closingTokens]
  have hdedents := walks_replicate 0 blocks.depth origin
  rw [Nat.zero_add] at hdedents
  exact hdedents.append (walks_of_forall_ne 0 fun _ hmem => kind_ne_of_mem_endMarks hmem)

end Offside
