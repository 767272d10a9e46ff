import Mathlib.Data.List.Infix
import Offside.Proofs.Sessions.Isolation

/-!
# Options for a while

Options can be set for a while. Entering such a while puts the options that are active on a stack,
and leaving it takes the top of the stack back. Inside, options can be set and reset, and further
whiles entered and left; but as long as every `leave` belongs to an `enter`, the stack is the same
again where a while is left, and so are the active options.
-/

namespace Offside

def Action.isEnter : Action → Bool
  | .enter _ => true
  | _ => false

def Action.isLeave : Action → Bool
  | .leave _ => true
  | _ => false

/-- The actions that are there to change the active options. -/
def Action.changesOptions : Action → Bool
  | .set _ | .reset | .enter _ | .leave _ => true
  | _ => false

def enters (actions : List Action) : Nat :=
  actions.countP Action.isEnter

def leaves (actions : List Action) : Nat :=
  actions.countP Action.isLeave

/-- Actions that leave every while that they enter, the innermost first, and no other. -/
inductive WellNested : List Action → Prop where
  | nil : WellNested []
  | other {action : Action} {rest : List Action} (henter : action.isEnter = false)
      (hleave : action.isLeave = false) (hrest : WellNested rest) : WellNested (action :: rest)
  | block {options : Options} {failing : Bool} {inner rest : List Action}
      (hinner : WellNested inner) (hrest : WellNested rest) :
      WellNested (.enter options :: (inner ++ .leave failing :: rest))

/-- Actions in which every `leave` belongs to an `enter`: at no point more whiles have been left
    than entered. Some may still be open at the end. -/
def LeavesMatch (actions : List Action) : Prop :=
  ∀ front, front <+: actions → leaves front ≤ enters front

instance : DecidablePred LeavesMatch := fun actions =>
  decidable_of_iff (∀ front ∈ actions.inits, leaves front ≤ enters front) <| by
    simp only [LeavesMatch, List.mem_inits]

/-- What some actions do to the active options of a session, step by step. -/
structure Session.ComesBack (session : Session) (actions : List Action) : Prop where
  /-- In front of every `leave` is the `enter` that it belongs to. -/
  exists_enter : ∀ front failing reply back,
    session.transcript actions = front ++ (.leave failing, reply) :: back →
    ∃ before options entered inner, front = before ++ (.enter options, entered) :: inner ∧
      WellNested (inner.map Prod.fst)
  /-- A `leave` comes back to the options that were active right before its `enter`. -/
  active_eq : ∀ before options entered inner failing reply back,
    session.transcript actions =
      before ++ (.enter options, entered) :: (inner ++ (.leave failing, reply) :: back) →
    WellNested (inner.map Prod.fst) →
    session.activeBehind
        (before ++ (.enter options, entered) :: (inner ++ [(.leave failing, reply)])) =
      session.activeBehind before
  /-- A failure goes on behind the `leave` that it causes. -/
  reply_eq : ∀ failing reply, (.leave failing, reply) ∈ session.transcript actions →
    reply = if failing then .swallowed false else .silent
  /-- Whatever is done for other ends keeps the active options as they are. -/
  active_kept : ∀ front step back, session.transcript actions = front ++ step :: back →
    step.1.changesOptions = false →
    session.activeBehind (front ++ [step]) = session.activeBehind front

-- ════════════════════════════════════════════════════════════════════════
-- Which `enter` a `leave` belongs to
-- ════════════════════════════════════════════════════════════════════════

theorem exists_eq_enter {action : Action} (h : action.isEnter = true) :
    ∃ options, action = .enter options := by
  cases action with
  | enter options => exact ⟨options, rfl⟩
  | _ => cases h

theorem exists_eq_leave {action : Action} (h : action.isLeave = true) :
    ∃ failing, action = .leave failing := by
  cases action with
  | leave failing => exact ⟨failing, rfl⟩
  | _ => cases h

theorem LeavesMatch.of_isPrefix {front actions : List Action} (h : LeavesMatch actions)
    (hfront : front <+: actions) : LeavesMatch front :=
  fun start hstart => h start (hstart.trans hfront)

namespace WellNested

variable {front back actions : List Action}

theorem append (hfront : WellNested front) (hback : WellNested back) :
    WellNested (front ++ back) := by
  induction hfront with
  | nil => exact hback
  | other henter hleave _ ih => exact .other henter hleave ih
  | @block options failing inner rest hinner _ _ ih =>
    have hassoc : .enter options :: (inner ++ .leave failing :: rest) ++ back =
        .enter options :: (inner ++ .leave failing :: (rest ++ back)) := by
      simp
    rw [hassoc]
    exact .block hinner ih

theorem leaves_eq_enters (h : WellNested actions) : leaves actions = enters actions := by
  induction h with
  | nil => rfl
  | other henter hleave _ ih =>
    simp only [leaves, enters, List.countP_cons, henter, hleave] at ih ⊢
    rw [ih]
  | block _ _ ihinner ihrest =>
    simp only [leaves, enters, List.countP_cons, List.countP_append, Action.isEnter,
      Action.isLeave] at ihinner ihrest ⊢
    rw [ihinner, ihrest]
    simp [Nat.add_assoc]

/-- Behind well nested actions there is nothing to be left. -/
theorem not_leavesMatch_concat (h : WellNested actions) (failing : Bool) :
    ¬ LeavesMatch (actions ++ [.leave failing]) := by
  intro hmatch
  have hle := hmatch _ (List.prefix_refl _)
  have hequal := h.leaves_eq_enters
  simp only [leaves, enters, List.countP_append, List.countP_singleton, Action.isEnter,
    Action.isLeave] at hle hequal
  simp only [if_true, Bool.false_eq_true, if_false] at hle
  omega

end WellNested

/-- Actions in which every `leave` belongs to an `enter` either are well nested, or have an
    innermost `enter` that is still to be left. The induction takes off the last action, and with
    a `leave` all that belongs to it. -/
theorem wellNested_or_exists_enter {actions : List Action} (h : LeavesMatch actions) :
    WellNested actions ∨ ∃ before options inner,
      actions = before ++ .enter options :: inner ∧ WellNested inner := by
  generalize hlength : actions.length = length
  induction length using Nat.strongRecOn generalizing actions with
  | ind length ih =>
    obtain rfl | ⟨init, last, rfl⟩ := actions.eq_nil_or_concat'
    · exact .inl .nil
    · have hinit := h.of_isPrefix (List.prefix_append init [last])
      rw [List.length_append, List.length_singleton] at hlength
      have hcases := ih init.length (by omega) hinit rfl
      by_cases henter : last.isEnter = true
      · obtain ⟨options, rfl⟩ := exists_eq_enter henter
        exact .inr ⟨init, options, [], rfl, .nil⟩
      by_cases hleave : last.isLeave = true
      · obtain ⟨failing, rfl⟩ := exists_eq_leave hleave
        obtain hwell | ⟨before, options, inner, rfl, hinner⟩ := hcases
        · exact absurd h (hwell.not_leavesMatch_concat failing)
        have hblock : WellNested (.enter options :: (inner ++ [.leave failing])) :=
          .block hinner .nil
        have hbefore := hinit.of_isPrefix (List.prefix_append before _)
        rw [List.length_append] at hlength
        rw [List.append_assoc, List.cons_append]
        obtain hwell | ⟨outer, outside, middle, rfl, hmiddle⟩ :=
          ih before.length (by omega) hbefore rfl
        · exact .inl (hwell.append hblock)
        · refine .inr ⟨outer, outside, _, ?_, hmiddle.append hblock⟩
          rw [List.append_assoc, List.cons_append]
      · have hlast : WellNested [last] :=
          .other (by simpa using henter) (by simpa using hleave) .nil
        obtain hwell | ⟨before, options, inner, rfl, hinner⟩ := hcases
        · exact .inl (hwell.append hlast)
        · refine .inr ⟨before, options, _, ?_, hinner.append hlast⟩
          rw [List.append_assoc, List.cons_append]

/-- A `leave` belongs to the innermost `enter` in front of it that is still to be left. -/
theorem exists_enter_of_leavesMatch {actions : List Action} {failing : Bool}
    (h : LeavesMatch (actions ++ [.leave failing])) :
    ∃ before options inner, actions = before ++ .enter options :: inner ∧ WellNested inner := by
  obtain hwell | henter := wellNested_or_exists_enter (h.of_isPrefix (List.prefix_append _ _))
  · exact absurd h (hwell.not_leavesMatch_concat failing)
  · exact henter

-- ════════════════════════════════════════════════════════════════════════
-- The stack of saved options
-- ════════════════════════════════════════════════════════════════════════

namespace Session

theorem performAll_append (session : Session) (front back : List Action) :
    (session.performAll (front ++ back)).2 =
      ((session.performAll front).2.performAll back).2 := by
  induction front generalizing session with
  | nil => rfl
  | cons action rest ih => exact ih (session.perform action).2

theorem activeBehind_append (session : Session) (front back : List (Action × Reply)) :
    session.activeBehind (front ++ back) =
      (session.performAll (front.map Prod.fst)).2.activeBehind back := by
  rw [activeBehind, List.map_append, performAll_append]
  rfl

theorem saved_perform {action : Action} (henter : action.isEnter = false)
    (hleave : action.isLeave = false) (session : Session) :
    (session.perform action).2.saved = session.saved := by
  cases action with
  | enter options => cases henter
  | leave failing => cases hleave
  | pull name limit =>
    rw [perform]
    cases session.reader? name <;> rfl
  | _ => rfl

theorem active_perform {action : Action} (h : action.changesOptions = false)
    (session : Session) : (session.perform action).2.active = session.active := by
  cases action with
  | pull name limit =>
    rw [perform]
    cases session.reader? name <;> rfl
  | preview options => rfl
  | read request => rfl
  | start name request => rfl
  | _ => cases h

theorem leave_of_saved {session : Session} {options : Options} {saved : List Options}
    (h : session.saved = options :: saved) :
    session.leave = { session with active := options, saved } := by
  rw [leave, h]

/-- Leaving undoes entering, if the stack is the same as right behind the `enter`. -/
theorem performAll_block {session : Session} {inner : List Action}
    (hinner : ∀ session : Session, (session.performAll inner).2.saved = session.saved)
    (options : Options) (failing : Bool) :
    (session.performAll (.enter options :: (inner ++ [.leave failing]))).2.active =
        session.active ∧
      (session.performAll (.enter options :: (inner ++ [.leave failing]))).2.saved =
        session.saved := by
  have hblock : (session.performAll (.enter options :: (inner ++ [.leave failing]))).2 =
      ((session.perform (.enter options)).2.performAll inner).2.leave :=
    performAll_append _ inner [.leave failing]
  have hsaved : ((session.perform (.enter options)).2.performAll inner).2.saved =
      session.active :: session.saved :=
    hinner _
  rw [hblock, leave_of_saved hsaved]
  exact ⟨rfl, rfl⟩

end Session

/-- Well nested actions keep the stack of saved options as it is, however they set and reset the
    active ones. -/
theorem WellNested.saved_performAll {actions : List Action} (h : WellNested actions)
    (session : Session) : (session.performAll actions).2.saved = session.saved := by
  induction h generalizing session with
  | nil => rfl
  | @other action rest henter hleave _ ih =>
    exact (ih (session.perform action).2).trans (Session.saved_perform henter hleave session)
  | @block options failing inner rest _ _ ihinner ihrest =>
    have hassoc : .enter options :: (inner ++ .leave failing :: rest) =
        (.enter options :: (inner ++ [.leave failing])) ++ rest := by
      simp
    rw [hassoc, Session.performAll_append, ihrest]
    exact (Session.performAll_block ihinner options failing).2

-- ════════════════════════════════════════════════════════════════════════
-- Steps of a session
-- ════════════════════════════════════════════════════════════════════════

namespace Session

theorem map_fst_transcript (session : Session) (actions : List Action) :
    (session.transcript actions).map Prod.fst = actions := by
  induction actions generalizing session with
  | nil => rfl
  | cons action rest ih =>
    rw [transcript_cons, List.map_cons, ih]

/-- A step of a transcript has the answer that the session gives there. -/
theorem reply_eq_of_transcript_eq {session : Session} {actions : List Action}
    {front back : List (Action × Reply)} {action : Action} {reply : Reply}
    (h : session.transcript actions = front ++ (action, reply) :: back) :
    reply = ((session.performAll (front.map Prod.fst)).2.perform action).1 := by
  obtain ⟨rest, hrest⟩ := exists_transcript_eq h
  cases rest with
  | nil => cases hrest
  | cons next rest =>
    rw [transcript_cons] at hrest
    obtain ⟨hstep, -⟩ := List.cons.inj hrest
    cases hstep
    rfl

/-- In a session in which every `leave` belongs to an `enter`, leaving comes back to the options
    that were active right before that `enter`, whatever has been done since then. No failure is
    held back by it, and nothing that is done for other ends touches the active options. -/
theorem comesBack {session : Session} {actions : List Action} (h : LeavesMatch actions) :
    session.ComesBack actions where
  exists_enter := by
    intro front failing reply back hsplit
    have hactions := session.map_fst_transcript actions
    rw [hsplit, List.map_append, List.map_cons] at hactions
    have hfront : front.map Prod.fst ++ [.leave failing] <+: actions :=
      ⟨back.map Prod.fst, by rw [List.append_assoc]; exact hactions⟩
    obtain ⟨before, options, inner, heq, hinner⟩ :=
      exists_enter_of_leavesMatch (h.of_isPrefix hfront)
    obtain ⟨before, rest, rfl, rfl, hrest⟩ := List.map_eq_append_iff.1 heq
    obtain ⟨⟨entering, entered⟩, inner, rfl, rfl, rfl⟩ := List.map_eq_cons_iff.1 hrest
    exact ⟨before, options, entered, inner, rfl, hinner⟩
  active_eq := by
    intro before options entered inner failing reply back _ hinner
    rw [activeBehind_append, activeBehind, List.map_cons, List.map_append]
    exact (performAll_block hinner.saved_performAll options failing).1
  reply_eq := by
    intro failing reply hmem
    obtain ⟨front, back, hsplit⟩ := List.append_of_mem hmem
    exact reply_eq_of_transcript_eq hsplit
  active_kept := by
    intro front step back _ hstep
    rw [activeBehind_append]
    exact active_perform hstep _

/-- A while inside another one, left because of a failure, with options set and reset on the way. -/
def whileInWhile : List Action :=
  [.set { emitEof := .flag true }, .enter { strictIndentation := .integer 1 }, .reset,
    .enter { strictIndentation := .flag true }, .read ⟨"(\n  ?", none, none⟩, .leave true,
    .set { emitEof := .text "x" }, .leave false]

theorem comesBack_while_in_while :
    LeavesMatch whileInWhile ∧ ({} : Session).ComesBack whileInWhile ∧
      (({} : Session).performAll (whileInWhile.take 6)).2.active = {} ∧
      (({} : Session).performAll whileInWhile).2.active = { emitEof := .flag true } :=
  have hmatch : LeavesMatch whileInWhile := by decide
  ⟨hmatch, comesBack hmatch, rfl, rfl⟩

end Session

end Offside
