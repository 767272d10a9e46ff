import Offside.Reader

/-!
# Portions

The tokens of a portion are the first ones that were still to come. A portion that is taken
whole leaves the lexer where its last token was handed out; one that asks for more than there
is leaves it where the run has ended.
-/

namespace Offside

/-- Up to the token with a given number there are as many tokens, and the last moment is that of
    the token itself. -/
theorem getLast?_upToToken {moments : List Moment} {index : Nat} {token : Token}
    (h : (moments.filterMap (·.emission.token?))[index]? = some token) :
    ∃ lexer, (upToToken (index + 1) moments).getLast? = some ⟨.token token, lexer⟩ := by
  induction moments generalizing index with
  | nil => cases h
  | cons moment rest ih =>
    obtain ⟨emission, lexer⟩ := moment
    cases emission with
    | note taken =>
      obtain ⟨stop, hstop⟩ := ih h
      refine ⟨stop, ?_⟩
      rw [upToToken, List.getLast?_cons, hstop, Option.getD_some]
    | token emitted =>
      cases index with
      | zero =>
        cases h
        refine ⟨lexer, ?_⟩
        rw [upToToken, upToToken, List.getLast?_singleton]
      | succ index =>
        obtain ⟨stop, hstop⟩ := ih h
        refine ⟨stop, ?_⟩
        rw [upToToken, List.getLast?_cons, hstop, Option.getD_some]

/-- Up to the token with a given number stand the first tokens, so many of them. -/
theorem filterMap_token?_upToToken (count : Nat) (moments : List Moment) :
    (upToToken count moments).filterMap (·.emission.token?) =
      (moments.filterMap (·.emission.token?)).take count := by
  induction moments generalizing count with
  | nil => cases count <;> rfl
  | cons moment rest ih =>
    obtain ⟨emission, lexer⟩ := moment
    cases count with
    | zero => rfl
    | succ count =>
      cases emission with
      | note taken => exact ih (count + 1)
      | token emitted => exact congrArg (emitted :: ·) (ih count)

theorem upToToken_zero (moments : List Moment) : upToToken 0 moments = [] := by
  rw [upToToken]

theorem upToToken_nil (count : Nat) : upToToken count [] = [] := by
  cases count <;> rfl

theorem upToToken_append (count : Nat) (front back : List Moment) :
    upToToken count (front ++ back) = upToToken count front ++
      upToToken (count - (front.filterMap (·.emission.token?)).length) back := by
  induction front generalizing count with
  | nil => rw [upToToken_nil]; rfl
  | cons moment rest ih =>
    obtain ⟨emission, lexer⟩ := moment
    cases count with
    | zero => rw [Nat.zero_sub, upToToken_zero, upToToken_zero, upToToken_zero]; rfl
    | succ count =>
      cases emission with
      | note taken => exact congrArg (_ :: ·) (ih (count + 1))
      | token emitted =>
        have hcount : count + 1 - (rest.filterMap (·.emission.token?)).length.succ =
            count - (rest.filterMap (·.emission.token?)).length :=
          Nat.add_sub_add_right count 1 _
        refine (congrArg (_ :: ·) (ih count)).trans ?_
        rw [← hcount]
        rfl

/-- A number of tokens that is not reached leaves out nothing. -/
theorem upToToken_of_lt {count : Nat} {moments : List Moment}
    (h : (moments.filterMap (·.emission.token?)).length < count) :
    upToToken count moments = moments := by
  induction moments generalizing count with
  | nil => exact upToToken_nil count
  | cons moment rest ih =>
    obtain ⟨emission, lexer⟩ := moment
    cases count with
    | zero => cases h
    | succ count =>
      cases emission with
      | note taken => exact congrArg (_ :: ·) (ih h)
      | token emitted => exact congrArg (_ :: ·) (ih (Nat.lt_of_succ_lt_succ h))

/-- A limit that is not reached before nothing more is to come. -/
def Exhausts (limit : Option Nat) (run : Run) : Prop :=
  ∀ count ∈ limit, run.tokens.length < count

theorem exhausts_none (run : Run) : Exhausts none run := by
  rintro count ⟨⟩

theorem exhausts_some {count : Nat} {run : Run} :
    Exhausts (some count) run ↔ run.tokens.length < count := by
  constructor
  · intro h
    exact h count rfl
  · rintro h _ ⟨⟩
    exact h

namespace Reader

theorem tokens_pull_isPrefix (reader : Reader) (limit : Option Nat) :
    (reader.pull limit).1.tokens <+: reader.pending.tokens := by
  cases limit with
  | none => exact List.prefix_refl _
  | some count =>
    rw [pull]
    split
    · exact (upToToken_isPrefix count reader.pending.moments).filterMap _
    · exact List.prefix_refl _

theorem tokens_pullSome (reader : Reader) (count : Nat) :
    (reader.pullSome count).1.tokens = reader.pending.tokens.take count :=
  filterMap_token?_upToToken count reader.pending.moments

theorem tokens_pending_pullSome (reader : Reader) (count : Nat) :
    (reader.pullSome count).2.pending.tokens = reader.pending.tokens.drop count := by
  have hsplit := congrArg (List.filterMap (·.emission.token?)) (reader.moments_pullSome count)
  rw [List.filterMap_append, filterMap_token?_upToToken] at hsplit
  exact List.append_cancel_left (hsplit.trans (List.take_append_drop count _).symm)

theorem pull_of_exhausts (reader : Reader) {limit : Option Nat}
    (h : Exhausts limit reader.pending) : reader.pull limit = reader.pullAll := by
  cases limit with
  | none => rfl
  | some count => rw [pull, if_neg (Nat.not_le.2 (h count rfl))]

/-- A limit that does not exhaust a run is a number, and there are as many tokens. -/
theorem exists_pull_of_not_exhausts (reader : Reader) {limit : Option Nat}
    (h : ¬ Exhausts limit reader.pending) :
    ∃ count, limit = some count ∧ count ≤ reader.pending.tokens.length ∧
      reader.pull limit = reader.pullSome count := by
  cases limit with
  | none => exact absurd (exhausts_none _) h
  | some count =>
    have hle := Nat.not_lt.1 (mt exhausts_some.2 h)
    exact ⟨count, rfl, hle, by rw [pull, if_pos hle]⟩

theorem lexer_pull_zero (reader : Reader) : (reader.pull (some 0)).2.lexer = reader.lexer := by
  rw [pull, if_pos (Nat.zero_le _), pullSome, upToToken]
  rfl

/-- Behind so many tokens the lexer stands as it did when the last of them was handed out. -/
theorem exists_moment_pull (reader : Reader) {index : Nat} {token : Token}
    (h : reader.pending.tokens[index]? = some token) :
    ⟨.token token, (reader.pull (some (index + 1))).2.lexer⟩ ∈ reader.pending.moments := by
  obtain ⟨hlt, -⟩ := List.getElem?_eq_some_iff.1 h
  obtain ⟨lexer, hlast⟩ := getLast?_upToToken h
  have hpull : (reader.pull (some (index + 1))).2.lexer = lexer := by
    rw [pull, if_pos (Nat.succ_le_of_lt hlt), pullSome, hlast]
    rfl
  rw [hpull]
  exact (upToToken_isPrefix _ _).subset (List.mem_of_getLast? hlast)

theorem lexer_pull_of_exhausts (reader : Reader) {limit : Option Nat}
    (h : Exhausts limit reader.pending) :
    (reader.pull limit).2.lexer = reader.pending.lexer := by
  rw [reader.pull_of_exhausts h]
  rfl

end Reader

end Offside
