import Offside.Reader

/-!
# Sessions

In a session some options are active. They can be set, set for a while, and set back;
texts are read under them unless a reading brings options of its own. Readings
can be kept under a name and carried on later.

The options of a reading are fixed when it is opened. What is done to the active
options later, or to other readings, makes no difference to it.
-/

namespace Offside

/-- What is read, and under which options if not the active ones. -/
structure Request where
  text : String
  file : Option String := none
  options : Option Options := none

/-- What can be done in a session. -/
inductive Action where
  /-- Sets the active options. -/
  | set (options : Options)
  /-- Sets the active options to the defaults. -/
  | reset
  /-- Sets the active options for a while. -/
  | enter (options : Options)
  /-- Ends the innermost such while, in the normal way or because of a failure. -/
  | leave (failing : Bool)
  /-- Shows options without setting them. -/
  | preview (options : Options)
  /-- Reads a whole text. -/
  | read (request : Request)
  /-- Starts a reading under a name. -/
  | start (name : String) (request : Request)
  /-- Carries on a reading: at most `limit` tokens. -/
  | pull (name : String) (limit : Option Nat)

/-- What an action answers: nothing in particular, whether a failure was kept from going
    on, options, or tokens. -/
inductive Reply where
  | silent
  | swallowed (value : Bool)
  | built (options : Options)
  | portion (portion : Portion)

/-- A session: the active options, those to come back to, the innermost first, and the
    named readings. -/
structure Session where
  active : Options := {}
  saved : List Options := []
  readers : List (String × Reader) := []

namespace Session

/-- The reader for a request: the active options are used unless others are given. -/
def readerFor (session : Session) (request : Request) : Reader :=
  .ofText request.text request.file (request.options.getD session.active)

def reader? (session : Session) (name : String) : Option Reader :=
  session.readers.lookup name

/-- Keeps a reading under a name, in place of an earlier one. -/
def keep (session : Session) (name : String) (reader : Reader) : Session :=
  { session with readers := (name, reader) :: session.readers.filter (·.1 ≠ name) }

/-- Comes back to the options that were active before the innermost `enter`. -/
def leave (session : Session) : Session :=
  match session.saved with
  | [] => session
  | options :: saved => { session with active := options, saved }

/-- The effect of an action on the session, and its answer. -/
def perform (session : Session) : Action → Reply × Session
  | .set options => (.silent, { session with active := options })
  | .reset => (.silent, { session with active := {} })
  | .enter options =>
    (.silent, { session with active := options, saved := session.active :: session.saved })
  | .leave failing => (if failing then .swallowed false else .silent, session.leave)
  | .preview options => (.built options, session)
  | .read request => (.portion (session.readerFor request).pending.whole, session)
  | .start name request => (.silent, session.keep name (session.readerFor request))
  | .pull name limit =>
    match session.reader? name with
    | none => (.silent, session)
    | some reader =>
      let (portion, reader) := reader.pull limit
      (.portion portion, session.keep name reader)

def performAll (session : Session) : List Action → List Reply × Session
  | [] => ([], session)
  | action :: actions =>
    let (reply, next) := session.perform action
    let (replies, last) := next.performAll actions
    (reply :: replies, last)

@[simp] theorem reader?_keep_self (session : Session) (name : String) (reader : Reader) :
    (session.keep name reader).reader? name = some reader := by
  simp only [keep, reader?, List.lookup_cons_self]

/-- Readings under other names are not touched. -/
theorem reader?_keep_of_ne (session : Session) {name other : String} (reader : Reader)
    (h : other ≠ name) : (session.keep name reader).reader? other = session.reader? other := by
  have hlookup (entries : List (String × Reader)) :
      (entries.filter (·.1 ≠ name)).lookup other = entries.lookup other := by
    induction entries with
    | nil => rfl
    | cons entry rest ih =>
      obtain ⟨key, value⟩ := entry
      by_cases hkey : key = name
      · have hother : (other == key) = false := by simpa [hkey] using h
        simpa only [List.filter_cons, hkey, ne_eq, not_true_eq_false, decide_false,
          Bool.false_eq_true, if_false, List.lookup_cons, hkey ▸ hother] using ih
      · simp only [List.filter_cons, hkey, ne_eq, not_false_eq_true, decide_true, if_true,
          List.lookup_cons, ih]
  have hself : (other == name) = false := by simpa using h
  simp only [keep, reader?, List.lookup_cons, hself]
  exact hlookup session.readers

end Session

end Offside
