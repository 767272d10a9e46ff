import Mathlib.Data.List.Basic
import Offside.Proofs.Reading.Passage
import Offside.Proofs.Reading.Portions
import Offside.Session

/-!
# Isolation of readings

In a session several readings are under way at once, and the active options change while they
are. What a reading hands out is decided when it is started: it is the stream of its text under
the options it was started with, cut where its own limits say, and nothing else that is done in
the session makes a difference.

## Main definitions

- `Offside.Portion.Serves` — a portion of a stream, by the limits of the earlier portions
- `Offside.HandsOut` — answers that make up a stream, cut by limits
- `Offside.Session.transcript` — what is done in a session, each action with its answer
- `Offside.exchanges` — the steps of a transcript in which one reading is carried on

## Main statements

- `Offside.Suspended.serves_pull`, `Offside.Suspended.pull` — one portion, and what it leaves
- `Offside.Session.reader?_perform` — no other action touches a reading
- `Offside.reading_isolated` — a reading hands out its stream, whatever is done around it

## Design notes

A reading is described by all limits it was given so far and not by what it has left. So what is
said about one portion speaks of the whole stream, and how the limits before it were chosen
shows only in their sum.
-/

namespace Offside

/-- How many tokens some limits ask for together, unless one of them asks for all. -/
def asked : List (Option Nat) → Option Nat
  | [] => some 0
  | limit :: rest => limit.bind fun count => (asked rest).map (count + ·)

/-- Limits that together ask for more than there is. -/
def Exceeds (limits : List (Option Nat)) (size : Nat) : Prop :=
  ∀ total ∈ asked limits, size < total

/-- A portion of a stream, by the limits of the portions before it and its own: as many tokens as
    asked for while there are as many, then the rest with the end of the stream, and then nothing
    any more. -/
structure Portion.Serves (portion : Portion) (stream : Stream) (before : List (Option Nat))
    (limit : Option Nat) : Prop where
  within : ∀ total count, asked before = some total → limit = some count →
    total + count ≤ stream.tokens.length →
      portion.tokens = (stream.tokens.drop total).take count ∧ portion.stop = .limit
  atEnd : ∀ total, asked before = some total → total ≤ stream.tokens.length →
    (∀ count ∈ limit, stream.tokens.length < total + count) →
      portion.tokens = stream.tokens.drop total ∧ portion.stop = stream.ending.stop
  behindEnd : Exceeds before stream.tokens.length →
    portion.tokens = [] ∧ portion.stop = if limit = some 0 then .limit else .done

def Reply.tokens : Reply → List Token
  | .portion answer => answer.tokens
  | _ => []

/-- Limits with their answers that hand out a stream: together the answers are the first tokens of
    it, as many as asked for, and each answer is the portion that comes next. -/
structure HandsOut (stream : Stream) (exchanges : List (Option Nat × Reply)) : Prop where
  tokens_eq : exchanges.flatMap (·.2.tokens) =
    stream.tokens.take ((asked (exchanges.map (·.1))).getD stream.tokens.length)
  answer : ∀ earlier limit reply later, exchanges = earlier ++ (limit, reply) :: later →
    ∃ portion, reply = .portion portion ∧ portion.Serves stream (earlier.map (·.1)) limit

/-- All that reading hands out on a request while the given options are active. -/
def Request.stream (request : Request) (active : Options) : Stream :=
  (Lexer.ofText request.text request.file (request.options.getD active)).run.stream

/-- What is done in a session, each action with its answer. -/
def Session.transcript (session : Session) (actions : List Action) : List (Action × Reply) :=
  actions.zip (session.performAll actions).1

/-- The options that are active behind some steps of a session. -/
def Session.activeBehind (session : Session) (steps : List (Action × Reply)) : Options :=
  (session.performAll (steps.map (·.1))).2.active

/-- The limit and the answer of a step that carries on the reading with a given name. -/
def exchange? (name : String) : Action × Reply → Option (Option Nat × Reply)
  | (.pull other limit, reply) => if other = name then some (limit, reply) else none
  | _ => none

/-- How the reading with a given name is carried on in some steps of a session. -/
def exchanges (name : String) (steps : List (Action × Reply)) : List (Option Nat × Reply) :=
  steps.filterMap (exchange? name)

-- ════════════════════════════════════════════════════════════════════════
-- One reading
-- ════════════════════════════════════════════════════════════════════════

theorem asked_concat (limits : List (Option Nat)) (limit : Option Nat) :
    asked (limits ++ [limit]) = (asked limits).bind fun total => limit.map (total + ·) := by
  induction limits with
  | nil => cases limit <;> simp [asked]
  | cons first rest ih =>
    rw [List.cons_append, asked, ih, asked]
    cases first with
    | none => rfl
    | some count => cases asked rest <;> cases limit <;> simp [Nat.add_assoc]

theorem exists_asked_or_exceeds (limits : List (Option Nat)) (size : Nat) :
    (∃ total, asked limits = some total ∧ total ≤ size) ∨ Exceeds limits size := by
  cases htotal : asked limits with
  | none =>
    right
    intro total hmem
    rw [htotal] at hmem
    cases hmem
  | some total =>
    by_cases hle : total ≤ size
    · exact .inl ⟨total, rfl, hle⟩
    · right
      intro other hmem
      rw [htotal] at hmem
      cases hmem
      exact Nat.not_le.1 hle

theorem not_exceeds {limits : List (Option Nat)} {total size : Nat}
    (h : asked limits = some total) (hle : total ≤ size) : ¬ Exceeds limits size :=
  fun hexceeds => Nat.not_lt.2 hle (hexceeds total h)

/-- Behind limits that ask for too much, it is too much with any further limit. -/
theorem Exceeds.concat {limits : List (Option Nat)} {size : Nat} (h : Exceeds limits size)
    (limit : Option Nat) : Exceeds (limits ++ [limit]) size := by
  intro total hmem
  rw [asked_concat, Option.mem_def, Option.bind_eq_some_iff] at hmem
  obtain ⟨front, hfront, hmap⟩ := hmem
  obtain ⟨count, -, rfl⟩ := Option.map_eq_some_iff.1 hmap
  exact Nat.lt_add_right count (h front hfront)

theorem exceeds_concat_of_exhausts {limits : List (Option Nat)} {limit : Option Nat}
    {total size : Nat} (h : asked limits = some total)
    (hlimit : ∀ count ∈ limit, size < total + count) : Exceeds (limits ++ [limit]) size := by
  intro sum hmem
  rw [asked_concat, h, Option.bind_some, Option.mem_def, Option.map_eq_some_iff] at hmem
  obtain ⟨count, hcount, rfl⟩ := hmem
  exact hlimit count hcount

theorem take_asked_of_exceeds {limits : List (Option Nat)} {tokens : List Token}
    (h : Exceeds limits tokens.length) :
    tokens.take ((asked limits).getD tokens.length) = tokens := by
  apply List.take_of_length_le
  cases htotal : asked limits with
  | none => exact Nat.le_refl _
  | some total => exact Nat.le_of_lt (h total htotal)

/-- A reader behind portions with the given limits: the rest of the stream is still to come, and
    nothing once its end has been handed out. -/
structure Suspended (reader : Reader) (stream : Stream) (limits : List (Option Nat)) : Prop where
  within : ∀ total, asked limits = some total → total ≤ stream.tokens.length →
    reader.pending.stream = ⟨stream.tokens.drop total, stream.ending⟩
  behindEnd : Exceeds limits stream.tokens.length → reader.pending.stream = ⟨[], .finished⟩

namespace Suspended

variable {reader : Reader} {stream : Stream} {limits : List (Option Nat)}

theorem start (reader : Reader) : Suspended reader reader.pending.stream [] where
  within := by
    rintro total ⟨⟩ -
    rfl
  behindEnd := by
    intro hexceeds
    exact absurd (hexceeds 0 rfl) (Nat.not_lt_zero _)

/-- The three things that can happen to a reader that is asked for a portion. -/
theorem pull_cases (h : Suspended reader stream limits) (limit : Option Nat) :
    (∃ total count, asked limits = some total ∧ limit = some count ∧
      total + count ≤ stream.tokens.length ∧ reader.pull limit = reader.pullSome count ∧
      reader.pending.stream = ⟨stream.tokens.drop total, stream.ending⟩) ∨
    (∃ total, asked limits = some total ∧ total ≤ stream.tokens.length ∧
      (∀ count ∈ limit, stream.tokens.length < total + count) ∧
      reader.pull limit = reader.pullAll ∧
      reader.pending.stream = ⟨stream.tokens.drop total, stream.ending⟩) ∨
    Exceeds limits stream.tokens.length ∧ reader.pending.stream = ⟨[], .finished⟩ := by
  obtain ⟨total, htotal, hle⟩ | hexceeds := exists_asked_or_exceeds limits stream.tokens.length
  · have hpending := h.within total htotal hle
    have hlength : reader.pending.tokens.length = stream.tokens.length - total := by
      rw [← List.length_drop]
      exact congrArg (·.tokens.length) hpending
    by_cases hexhausts : Exhausts limit reader.pending
    · refine .inr (.inl ⟨total, htotal, hle, ?_, reader.pull_of_exhausts hexhausts, hpending⟩)
      intro count hcount
      have hlt := hexhausts count hcount
      omega
    · obtain ⟨count, hlimit, hcount, hpull⟩ := reader.exists_pull_of_not_exhausts hexhausts
      exact .inl ⟨total, count, htotal, hlimit, by omega, hpull, hpending⟩
  · exact .inr (.inr ⟨hexceeds, h.behindEnd hexceeds⟩)

theorem serves_pull (h : Suspended reader stream limits) (limit : Option Nat) :
    (reader.pull limit).1.Serves stream limits limit := by
  obtain ⟨total, count, htotal, hlimit, hle, hpull, hpending⟩ |
    ⟨total, htotal, hle, hlimit, hpull, hpending⟩ | ⟨hexceeds, hpending⟩ := h.pull_cases limit
  · have htokens : reader.pending.tokens = stream.tokens.drop total :=
      congrArg Stream.tokens hpending
    rw [hpull]
    constructor
    · intro total' count' htotal' hlimit' _
      obtain rfl := Option.some.inj (htotal.symm.trans htotal')
      obtain rfl := Option.some.inj (hlimit.symm.trans hlimit')
      exact ⟨by rw [reader.tokens_pullSome, htokens], rfl⟩
    · intro total' htotal' _ hmore
      obtain rfl := Option.some.inj (htotal.symm.trans htotal')
      exact absurd (hmore count hlimit) (Nat.not_lt.2 hle)
    · intro hexceeds
      exact absurd hexceeds (not_exceeds htotal (by omega))
  · rw [hpull]
    constructor
    · intro total' count htotal' hlimit' hwithin
      obtain rfl := Option.some.inj (htotal.symm.trans htotal')
      exact absurd (hlimit count hlimit') (Nat.not_lt.2 hwithin)
    · intro total' htotal' _ _
      obtain rfl := Option.some.inj (htotal.symm.trans htotal')
      exact ⟨congrArg Stream.tokens hpending, congrArg (·.ending.stop) hpending⟩
    · intro hexceeds
      exact absurd hexceeds (not_exceeds htotal hle)
  · have htokens : reader.pending.tokens = [] := congrArg Stream.tokens hpending
    constructor
    · intro total count htotal _ hle
      exact absurd hexceeds (not_exceeds htotal (by omega))
    · intro total htotal hle _
      exact absurd hexceeds (not_exceeds htotal hle)
    · intro _
      by_cases hzero : limit = some 0
      · rw [if_pos hzero, hzero, Reader.pull, if_pos (Nat.zero_le _)]
        exact ⟨by rw [reader.tokens_pullSome, List.take_zero], rfl⟩
      · have hexhausts : Exhausts limit reader.pending := by
          rintro count rfl
          rw [htokens]
          exact Nat.pos_of_ne_zero fun hcount => hzero (congrArg some hcount)
        rw [if_neg hzero, reader.pull_of_exhausts hexhausts]
        exact ⟨htokens, congrArg (·.ending.stop) hpending⟩

theorem pull (h : Suspended reader stream limits) (limit : Option Nat) :
    Suspended (reader.pull limit).2 stream (limits ++ [limit]) := by
  obtain ⟨total, count, htotal, hlimit, hle, hpull, hpending⟩ |
    ⟨total, htotal, hle, hlimit, hpull, -⟩ | ⟨hexceeds, hpending⟩ := h.pull_cases limit
  · have hsum : asked (limits ++ [limit]) = some (total + count) := by
      rw [asked_concat, htotal, hlimit]
      rfl
    rw [hpull]
    constructor
    · intro sum heq _
      obtain rfl := Option.some.inj (hsum.symm.trans heq)
      have htokens := reader.tokens_pending_pullSome count
      rw [show reader.pending.tokens = _ from congrArg Stream.tokens hpending,
        List.drop_drop] at htokens
      exact congr (congrArg Stream.mk htokens) (congrArg Stream.ending hpending)
    · intro hexceeds
      exact absurd hexceeds (not_exceeds hsum hle)
  · have hexceeds := exceeds_concat_of_exhausts htotal hlimit
    rw [hpull]
    refine ⟨fun sum heq hwithin => absurd hexceeds (not_exceeds heq hwithin), fun _ => rfl⟩
  · refine ⟨fun sum heq hwithin => absurd (hexceeds.concat limit) (not_exceeds heq hwithin), ?_⟩
    intro _
    by_cases hexhausts : Exhausts limit reader.pending
    · rw [reader.pull_of_exhausts hexhausts]
      rfl
    · obtain ⟨count, -, -, hpull⟩ := reader.exists_pull_of_not_exhausts hexhausts
      have htokens := reader.tokens_pending_pullSome count
      rw [show reader.pending.tokens = _ from congrArg Stream.tokens hpending,
        List.drop_nil] at htokens
      rw [hpull]
      exact congr (congrArg Stream.mk htokens) (congrArg Stream.ending hpending)

end Suspended

/-- One more portion of a reading that has handed out its stream so far. -/
theorem HandsOut.concat {stream : Stream} {past : List (Option Nat × Reply)} {reader : Reader}
    (h : HandsOut stream past) (hreader : Suspended reader stream (past.map (·.1)))
    (limit : Option Nat) :
    HandsOut stream (past ++ [(limit, .portion (reader.pull limit).1)]) := by
  have hserves := hreader.serves_pull limit
  constructor
  · rw [List.flatMap_append, h.tokens_eq, List.map_append, List.flatMap_singleton]
    show _ ++ (reader.pull limit).1.tokens =
      stream.tokens.take ((asked (past.map (·.1) ++ [limit])).getD stream.tokens.length)
    obtain ⟨total, count, htotal, hlimit, hle, -⟩ | ⟨total, htotal, hle, hlimit, -⟩ |
      ⟨hexceeds, -⟩ := hreader.pull_cases limit
    · rw [(hserves.within total count htotal hlimit hle).1, asked_concat, htotal, hlimit]
      exact List.take_add.symm
    · rw [(hserves.atEnd total htotal hle hlimit).1, htotal,
        take_asked_of_exceeds (exceeds_concat_of_exhausts htotal hlimit)]
      exact List.take_append_drop total _
    · rw [(hserves.behindEnd hexceeds).1, List.append_nil, take_asked_of_exceeds hexceeds,
        take_asked_of_exceeds (hexceeds.concat limit)]
  · intro earlier limit' reply later hsplit
    obtain rfl | ⟨later, last, rfl⟩ := later.eq_nil_or_concat'
    · obtain ⟨rfl, heq⟩ := List.append_inj' hsplit rfl
      cases heq
      exact ⟨_, rfl, hserves⟩
    · have hsplit' : past ++ [(limit, Reply.portion (reader.pull limit).1)] =
          (earlier ++ (limit', reply) :: later) ++ [last] := by
        rw [hsplit, List.append_assoc, List.cons_append]
      obtain ⟨hpast, -⟩ := List.append_inj' hsplit' rfl
      exact h.answer earlier limit' reply later hpast

-- ════════════════════════════════════════════════════════════════════════
-- One reading among others
-- ════════════════════════════════════════════════════════════════════════

namespace Session

theorem transcript_cons (session : Session) (action : Action) (actions : List Action) :
    session.transcript (action :: actions) =
      (action, (session.perform action).1) :: (session.perform action).2.transcript actions := rfl

/-- A transcript can be cut anywhere; behind the cut it is that of the session as it stands
    there. -/
theorem exists_transcript_eq {session : Session} {actions : List Action}
    {front back : List (Action × Reply)} (h : session.transcript actions = front ++ back) :
    ∃ rest, (session.performAll (front.map (·.1))).2.transcript rest = back := by
  induction front generalizing session actions with
  | nil => exact ⟨actions, h⟩
  | cons step front ih =>
    cases actions with
    | nil => cases h
    | cons action rest =>
      rw [transcript_cons, List.cons_append] at h
      obtain ⟨rfl, hrest⟩ := List.cons.inj h
      exact ih hrest

/-- Nothing but starting a reading or carrying it on touches it. -/
theorem reader?_perform {session : Session} {action : Action} {name : String}
    (hstart : ∀ request, action ≠ .start name request)
    (hpull : ∀ limit, action ≠ .pull name limit) :
    (session.perform action).2.reader? name = session.reader? name := by
  cases action with
  | start other request =>
    have hne : name ≠ other := fun heq => hstart request (by rw [heq])
    exact reader?_keep_of_ne session _ hne
  | pull other limit =>
    have hne : name ≠ other := fun heq => hpull limit (by rw [heq])
    rw [perform]
    cases session.reader? other with
    | none => rfl
    | some reader => exact reader?_keep_of_ne session _ hne
  | leave failing =>
    rw [perform, leave]
    cases session.saved <;> rfl
  | _ => rfl

theorem perform_pull {session : Session} {name : String} {reader : Reader}
    (h : session.reader? name = some reader) (limit : Option Nat) :
    session.perform (.pull name limit) =
      (.portion (reader.pull limit).1, session.keep name (reader.pull limit).2) := by
  rw [perform, h]

end Session

theorem exchange?_pull (name : String) (limit : Option Nat) (reply : Reply) :
    exchange? name (.pull name limit, reply) = some (limit, reply) :=
  if_pos rfl

theorem exchange?_eq_none {name : String} {action : Action}
    (h : ∀ limit, action ≠ .pull name limit) (reply : Reply) :
    exchange? name (action, reply) = none := by
  cases action with
  | pull other limit => exact if_neg fun heq => h limit (by rw [heq])
  | _ => rfl

/-- While a session goes on, each of its readings hands out its stream. The induction is over the
    steps; what the reading has handed out before them is kept as its past. -/
theorem HandsOut.transcript {session : Session} {name : String} {reader : Reader}
    {stream : Stream} {past : List (Option Nat × Reply)} {actions : List Action}
    {steps later : List (Action × Reply)} (hpast : HandsOut stream past)
    (hreader : session.reader? name = some reader)
    (hsuspended : Suspended reader stream (past.map (·.1)))
    (hsteps : session.transcript actions = steps ++ later)
    (hname : ∀ step ∈ steps, ∀ request, step.1 ≠ .start name request) :
    HandsOut stream (past ++ exchanges name steps) := by
  induction steps generalizing session reader past actions with
  | nil =>
    rw [exchanges, List.filterMap_nil, List.append_nil]
    exact hpast
  | cons step steps ih =>
    cases actions with
    | nil => cases hsteps
    | cons action rest =>
      rw [Session.transcript_cons, List.cons_append] at hsteps
      obtain ⟨rfl, hrest⟩ := List.cons.inj hsteps
      obtain ⟨hstart, hnames⟩ := List.forall_mem_cons.1 hname
      by_cases hpull : ∃ limit, action = .pull name limit
      · obtain ⟨limit, rfl⟩ := hpull
        rw [Session.perform_pull hreader] at hrest ⊢
        have hnext : Suspended (reader.pull limit).2 stream
            ((past ++ [(limit, Reply.portion (reader.pull limit).1)]).map (·.1)) := by
          rw [List.map_append]
          exact hsuspended.pull limit
        have hall := ih (hpast.concat hsuspended limit) (session.reader?_keep_self name _) hnext
          hrest hnames
        rw [List.append_assoc, List.singleton_append] at hall
        rw [exchanges, List.filterMap_cons_some (exchange?_pull name limit _)]
        exact hall
      · have hforeign : ∀ limit, action ≠ .pull name limit := fun limit heq => hpull ⟨limit, heq⟩
        have hkept := (Session.reader?_perform hstart hforeign).trans hreader
        have hskip : exchanges name ((action, (session.perform action).1) :: steps) =
            exchanges name steps :=
          List.filterMap_cons_none (exchange?_eq_none hforeign _)
        rw [hskip]
        exact ih hpast hkept hsuspended hrest hnames

theorem handsOut_nil (stream : Stream) : HandsOut stream [] where
  tokens_eq := List.take_zero.symm
  answer := by
    intro earlier limit reply later hsplit
    cases earlier <;> cases hsplit

/-- A reading that is started in a session hands out the stream of its text under its own options,
    or under those that are active where it is started. Its limits alone say how the stream is
    cut: neither other readings nor later changes of the active options make a difference. -/
theorem reading_isolated {session : Session} {actions : List Action}
    {before steps after : List (Action × Reply)} {name : String} {request : Request}
    {reply : Reply}
    (h : session.transcript actions = before ++ (.start name request, reply) :: (steps ++ after))
    (hname : ∀ step ∈ steps, ∀ other, step.1 ≠ .start name other) :
    HandsOut (request.stream (session.activeBehind before)) (exchanges name steps) := by
  obtain ⟨rest, hrest⟩ := Session.exists_transcript_eq h
  cases rest with
  | nil => cases hrest
  | cons action rest =>
    rw [Session.transcript_cons] at hrest
    obtain ⟨hstep, hrest⟩ := List.cons.inj hrest
    obtain rfl : action = .start name request := congrArg Prod.fst hstep
    exact (handsOut_nil _).transcript (Session.reader?_keep_self _ name _) (Suspended.start _) hrest
      hname

/-- Two readings side by side, the first of them started under strict options. -/
def sideBySide : List Action :=
  [.enter { strictIndentation := .flag true }, .start "a" ⟨"x\n\ty\n  z", none, none⟩,
    .leave true, .start "b" ⟨"(", none, none⟩, .pull "a" (some 3), .pull "b" none,
    .pull "a" none, .pull "a" (some 1)]

/-- The first reading is carried on when strict options are no longer active, and yet the third
    line is refused as strict options have it. -/
theorem reading_isolated_side_by_side :
    ({} : Session).transcript sideBySide =
        [(.enter { strictIndentation := .flag true }, .silent)] ++
          (.start "a" ⟨"x\n\ty\n  z", none, none⟩, .silent) ::
            ((({} : Session).transcript sideBySide).drop 2 ++ []) ∧
      (∀ step ∈ (({} : Session).transcript sideBySide).drop 2,
        ∀ other, step.1 ≠ .start "a" other) ∧
      HandsOut (Request.stream ⟨"x\n\ty\n  z", none, none⟩ { strictIndentation := .flag true })
        (exchanges "a" ((({} : Session).transcript sideBySide).drop 2)) ∧
      (exchanges "a" ((({} : Session).transcript sideBySide).drop 2)).map
          (fun exchange => exchange.2.tokens.map (·.value)) =
        [["x", "", ""], ["y", ""], []] := by
  have hsteps : ({} : Session).transcript sideBySide =
      [(.enter { strictIndentation := .flag true }, .silent)] ++
        (.start "a" ⟨"x\n\ty\n  z", none, none⟩, .silent) ::
          ((({} : Session).transcript sideBySide).drop 2 ++ []) := rfl
  have hname : ∀ step ∈ (({} : Session).transcript sideBySide).drop 2,
      ∀ other, step.1 ≠ .start "a" other := by
    simp [Session.transcript, sideBySide, Session.performAll]
  exact ⟨hsteps, hname, reading_isolated hsteps hname, by decide +kernel⟩

end Offside
