import Offside.Run

/-!
# Reading in portions

A reader hands out the tokens of a run in portions and remembers how far the lexer
has come. A portion ends when as many tokens as asked for are there; nothing is read
beyond the last of them.
-/

namespace Offside

/-- Why a portion ends: as many tokens as asked for are there, nothing more is to come, or
    there is a problem. -/
inductive Stop where
  | limit
  | done
  | failed (diagnostic : Diagnostic)
deriving DecidableEq, Repr

def Ending.stop : Ending → Stop
  | finished => .done
  | failed diagnostic => .failed diagnostic

/-- Tokens handed out together, with the notes taken on the way. -/
structure Portion where
  tokens : List Token
  notes : List Note
  stop : Stop
deriving DecidableEq, Repr

/-- The notes of a portion that are shown when a level is asked for. -/
def Portion.notesAt (portion : Portion) (threshold : Level) : List Note :=
  portion.notes.filter fun note => threshold.shows note.level

/-- Everything that a run emits, as one portion. -/
def Run.whole (run : Run) : Portion :=
  ⟨run.tokens, run.notes, run.ending.stop⟩

/-- The first moments of a run, up to the token with the given number. -/
def upToToken : Nat → List Moment → List Moment
  | 0, _ => []
  | _ + 1, [] => []
  | count + 1, moment :: rest =>
    match moment.emission with
    | .token _ => moment :: upToToken count rest
    | .note _ => moment :: upToToken (count + 1) rest

theorem upToToken_isPrefix (count : Nat) (moments : List Moment) :
    upToToken count moments <+: moments := by
  induction moments generalizing count with
  | nil => cases count <;> exact List.nil_prefix
  | cons moment rest ih =>
    cases count with
    | zero => exact List.nil_prefix
    | succ count =>
      unfold upToToken
      split <;> exact (List.prefix_cons_inj moment).2 (ih _)

/-- A reading under way: the lexer, as far as tokens have been handed out, and what is
    still to come. -/
structure Reader where
  lexer : Lexer
  pending : Run

namespace Reader

def ofLexer (lexer : Lexer) : Reader :=
  ⟨lexer, lexer.run⟩

def ofText (text : String) (file : Option String := none) (options : Options := {}) : Reader :=
  ofLexer (.ofText text file options)

/-- Hands out all that is still to come. After that there is nothing more, also when the
    run has failed. -/
def pullAll (reader : Reader) : Portion × Reader :=
  let lexer := reader.pending.lexer
  (reader.pending.whole, ⟨lexer, .nothing lexer⟩)

/-- Hands out the next `count` tokens, provided that there are as many. -/
def pullSome (reader : Reader) (count : Nat) : Portion × Reader :=
  let taken := upToToken count reader.pending.moments
  let rest := reader.pending.moments.drop taken.length
  let lexer := (taken.getLast?.map (·.lexer)).getD reader.lexer
  ({ tokens := taken.filterMap (·.emission.token?)
     notes := taken.filterMap (·.emission.note?)
     stop := .limit },
    ⟨lexer, { reader.pending with moments := rest }⟩)

/-- Hands out the next portion: at most `limit` tokens, or all if there is no limit. Only
    when fewer tokens are left than asked for is the end of the run reached. -/
def pull (reader : Reader) (limit : Option Nat) : Portion × Reader :=
  match limit with
  | none => reader.pullAll
  | some count =>
    if count ≤ reader.pending.tokens.length then reader.pullSome count else reader.pullAll

/-- A new reading from where the lexer stands. -/
def restart (reader : Reader) : Reader :=
  ofLexer reader.lexer

/-- What a portion takes and what is left make up what was to come. -/
theorem moments_pullSome (reader : Reader) (count : Nat) :
    upToToken count reader.pending.moments ++ (reader.pullSome count).2.pending.moments =
      reader.pending.moments :=
  List.prefix_iff_eq_append.1 (upToToken_isPrefix count reader.pending.moments)

end Reader

end Offside
