import Offside.Proofs.Reading.Portions
import Offside.Proofs.Reading.Steps

/-!
# Where a reading can be left

A reading can be left in front of its first token, behind any of its tokens, and where it ends.
`Reads` lists the ways for a reading to go on from the start of a line, each with the places where
it can be left on the way. What holds of every such place is shown by induction on it.

## Main definitions

- `Offside.Run.stops` — the tokens of a run, each with the lexer as it stands right after
- `Offside.Reads` — what a lexer hands out, line by line, and how it ends
- `Offside.Reader.Leaves` — where a portion leaves a reading

## Main statements

- `Offside.reads_run` — every run goes on in one of these ways, line by line
- `Offside.Reads.invariant` — what each step keeps holds wherever a reading can be left
- `Offside.Reader.leaves_pull` — a portion leaves the reading at such a place
-/

namespace Offside

/-- The tokens among some moments, each with the lexer as it stands right after. -/
def stopsAmong (moments : List Moment) : List (Token × Lexer) :=
  moments.filterMap fun moment => moment.emission.token?.map (·, moment.lexer)

def Run.stops (run : Run) : List (Token × Lexer) :=
  stopsAmong run.moments

/-- Where a portion leaves a reading: in front of the first token, if none is asked for, behind the
    last one that it takes, or where the reading is over. -/
inductive Reader.Leaves (reader : Reader) (portion : Portion) (left : Reader) : Prop where
  | inFront (hstop : portion.stop = .limit) (htokens : portion.tokens = [])
      (hlexer : left.lexer = reader.lexer) (hpending : left.pending.tokens = reader.pending.tokens)
  | behind {front back : List (Token × Lexer)} {token : Token}
      (hstops : reader.pending.stops = front ++ (token, left.lexer) :: back)
      (hstop : portion.stop = .limit) (htokens : portion.tokens = front.map Prod.fst ++ [token])
      (hpending : left.pending.tokens = back.map Prod.fst)
  | ended (hstop : portion.stop = reader.pending.ending.stop)
      (htokens : portion.tokens = reader.pending.tokens)
      (hlexer : left.lexer = reader.pending.lexer) (hpending : left.pending.tokens = [])

/-- The tokens of a line that fits into the open blocks: its layout, and then its content. -/
def CodeLine.tokens (file : Option String) (shift : OpenBlocks.Shift) (line : CodeLine) :
    List Token :=
  shift.marks (line.origin file) ++ line.contentTokens file

/-- What a lexer hands out, with the lexer right after each token, how it ends, and the lexer
    then. There is one way to go on from the end of a text, and four from the start of a line. -/
inductive Reads : Lexer → List (Token × Lexer) → Ending → Lexer → Prop where
  /-- At the end of a text all open blocks are closed before the first token for it. -/
  | closed {lexer : Lexer} (hahead : lexer.ahead = []) :
      Reads lexer ((closingTokens lexer.origin lexer.options.marksEnd lexer.blocks).map
        (·, lexer.settled ∅)) .finished (lexer.settled ∅)
  /-- A line without content is passed over. -/
  | blank {lexer last : Lexer} {line : Line} {rest : List Line} {stops : List (Token × Lexer)}
      {ending : Ending} (hahead : lexer.ahead = line :: rest) (hcode : ¬ line.IsCode)
      (hrest : Reads (lexer.advance line rest) stops ending last) : Reads lexer stops ending last
  /-- A line that fits no block is not read. -/
  | misfit {lexer : Lexer} {line : Line} {rest : List Line} {problem : Problem}
      (hahead : lexer.ahead = line :: rest) (hcode : line.IsCode)
      (hresolve : lexer.blocks.resolve lexer.options.isStrict line.indent = .error problem) :
      Reads lexer [] (.failed (lexer.origin.report problem)) lexer
  /-- A line with a fault is read up to the fault. -/
  | fault {lexer : Lexer} {line : Line} {rest : List Line} {next : OpenBlocks}
      {shift : OpenBlocks.Shift} {diagnostic : Diagnostic}
      (hfits : lexer.Fits line rest next shift)
      (hfault : (lexer.codeLine line).fault? lexer.file = some diagnostic) :
      Reads lexer (((lexer.codeLine line).tokens lexer.file shift).map (·, lexer.settled next))
        (.failed diagnostic) (lexer.settled next)
  /-- Any other line is read to its end, and then those behind it are. -/
  | line {lexer last : Lexer} {line : Line} {rest : List Line} {next : OpenBlocks}
      {shift : OpenBlocks.Shift} {stops : List (Token × Lexer)} {ending : Ending}
      (hfits : lexer.Fits line rest next shift)
      (hfault : (lexer.codeLine line).fault? lexer.file = none)
      (hrest : Reads ((lexer.settled next).advance line rest) stops ending last) :
      Reads lexer (((lexer.codeLine line).tokens lexer.file shift).map (·, lexer.settled next) ++
        stops) ending last

theorem Ending.stop_ne_limit (ending : Ending) : ending.stop ≠ .limit := by
  cases ending <;> simp [Ending.stop]

theorem stopsAmong_append (front back : List Moment) :
    stopsAmong (front ++ back) = stopsAmong front ++ stopsAmong back :=
  List.filterMap_append

theorem map_fst_stopsAmong (moments : List Moment) :
    (stopsAmong moments).map Prod.fst = moments.filterMap (·.emission.token?) := by
  rw [stopsAmong, List.map_filterMap]
  congr 1
  funext moment
  cases moment.emission <;> rfl

theorem map_fst_stops (run : Run) : run.stops.map Prod.fst = run.tokens :=
  map_fst_stopsAmong run.moments

theorem stops_emit (lexer : Lexer) (emissions : List Emission) :
    (Run.emit lexer emissions).stops = (Run.emit lexer emissions).tokens.map (·, lexer) := by
  rw [tokens_emit, List.map_filterMap, Run.stops, stopsAmong, Run.emit, List.filterMap_map]
  rfl

theorem stops_andThen {run : Run} (h : run.ending = .finished) (next : Lexer → Run) :
    (run.andThen next).stops = run.stops ++ (next run.lexer).stops := by
  rw [Run.andThen, h]
  exact stopsAmong_append _ _

theorem stopsAmong_moments (tokens : List Token) (lexer : Lexer) :
    stopsAmong (tokens.map fun token => ⟨.token token, lexer⟩) = tokens.map (·, lexer) := by
  rw [stopsAmong, List.filterMap_map]
  exact congrFun List.filterMap_eq_map tokens

namespace Lexer

variable {lexer : Lexer} {line : Line} {rest : List Line} {next : OpenBlocks}
  {shift : OpenBlocks.Shift}

theorem stops_close (lexer : Lexer) :
    lexer.close.stops =
      (closingTokens lexer.origin lexer.options.marksEnd lexer.blocks).map
        (·, lexer.settled ∅) := by
  have htokens := congrArg Stream.tokens (stream_close lexer)
  exact (stops_emit (lexer.settled ∅) _).trans (congrArg (List.map _) htokens)

/-- The layout of a line is handed out by the settled lexer. -/
theorem Fits.stops_run (h : lexer.Fits line rest next shift) :
    lexer.run.stops = (shift.marks lexer.origin).map (·, lexer.settled next) ++
      (lexer.settled next).run.stops := by
  rw [h.run_eq, stops_andThen rfl, stops_emit, tokens_emit, filterMap_token?_shiftEmissions]
  rfl

theorem Fits.ending_run (h : lexer.Fits line rest next shift) :
    lexer.run.ending = (lexer.settled next).run.ending :=
  congrArg Stream.ending h.stream_run

theorem Fits.reads_of_fault (h : lexer.Fits line rest next shift) {diagnostic : Diagnostic}
    (hfault : (lexer.codeLine line).fault? lexer.file = some diagnostic) :
    Reads lexer lexer.run.stops lexer.run.ending lexer.run.lexer := by
  rw [h.stops_run, h.ending_run, h.lexer_run, h.run_settled_of_fault hfault, Run.stops,
    stopsAmong_moments, ← List.map_append]
  exact .fault h hfault

theorem Fits.reads_of_finished (h : lexer.Fits line rest next shift)
    (hfault : (lexer.codeLine line).fault? lexer.file = none)
    (hrest : Reads ((lexer.settled next).advance line rest)
      ((lexer.settled next).advance line rest).run.stops
      ((lexer.settled next).advance line rest).run.ending
      ((lexer.settled next).advance line rest).run.lexer) :
    Reads lexer lexer.run.stops lexer.run.ending lexer.run.lexer := by
  rw [h.stops_run, h.ending_run, h.lexer_run, h.run_settled_of_finished hfault, Run.stops,
    stopsAmong_append, stopsAmong_moments, ← List.append_assoc, ← List.map_append]
  exact .line h hfault hrest

end Lexer

/-- Every run goes on line by line, in one of the ways that are listed. -/
theorem reads_run (lexer : Lexer) :
    Reads lexer lexer.run.stops lexer.run.ending lexer.run.lexer := by
  induction lexer using Lexer.lineInduction with
  | ended lexer hahead =>
    rw [lexer.run_of_end hahead, lexer.stops_close]
    exact .closed hahead
  | blank lexer line rest hahead hcode ih =>
    rw [lexer.run_of_blank hahead hcode]
    exact .blank hahead hcode ih
  | misfit lexer line rest problem hahead hcode hresolve =>
    rw [lexer.run_of_misfit hahead hcode hresolve]
    exact .misfit hahead hcode hresolve
  | fault lexer line rest next shift diagnostic hfits hfault => exact hfits.reads_of_fault hfault
  | finished lexer line rest next shift hfits hfault ih => exact hfits.reads_of_finished hfault ih

/-- What settling a line, going on to the next one and closing the blocks at the end all keep holds
    wherever a reading can be left. -/
theorem Reads.invariant {holds : Lexer → Prop} {lexer last : Lexer}
    {stops : List (Token × Lexer)} {ending : Ending} (h : Reads lexer stops ending last)
    (hsettle : ∀ lexer line rest next shift, lexer.Fits line rest next shift → holds lexer →
      holds (lexer.settled next))
    (hadvance : ∀ lexer line rest, lexer.ahead = line :: rest → holds lexer →
      holds (lexer.advance line rest))
    (hclose : ∀ lexer, lexer.ahead = [] → holds lexer → holds (lexer.settled ∅))
    (hstart : holds lexer) : (∀ stop ∈ stops, holds stop.2) ∧ holds last := by
  have hall {tokens : List Token} {stop : Lexer} (hstop : holds stop) :
      ∀ found ∈ tokens.map (·, stop), holds found.2 :=
    List.forall_mem_map.2 fun _ _ => hstop
  induction h with
  | closed hahead => exact ⟨hall (hclose _ hahead hstart), hclose _ hahead hstart⟩
  | blank hahead hcode hrest ih => exact ih (hadvance _ _ _ hahead hstart)
  | misfit hahead hcode hresolve => exact ⟨List.forall_mem_nil _, hstart⟩
  | fault hfits hfault =>
    have hsettled := hsettle _ _ _ _ _ hfits hstart
    exact ⟨hall hsettled, hsettled⟩
  | line hfits hfault hrest ih =>
    have hsettled := hsettle _ _ _ _ _ hfits hstart
    obtain ⟨hstops, hlast⟩ := ih (hadvance _ _ _ hfits.ahead_eq hsettled)
    exact ⟨List.forall_mem_append.2 ⟨hall hsettled, hstops⟩, hlast⟩

namespace Reader

theorem leaves_pull (reader : Reader) (limit : Option Nat) :
    reader.Leaves (reader.pull limit).1 (reader.pull limit).2 := by
  by_cases hlimit : Exhausts limit reader.pending
  · rw [reader.pull_of_exhausts hlimit]
    exact .ended rfl rfl rfl rfl
  · obtain ⟨count, rfl, hle, hpull⟩ := reader.exists_pull_of_not_exhausts hlimit
    rw [hpull]
    cases count with
    | zero =>
      exact .inFront rfl (reader.tokens_pullSome 0) (hpull ▸ reader.lexer_pull_zero)
        (reader.tokens_pending_pullSome 0)
    | succ index =>
      obtain ⟨token, htoken⟩ : ∃ token, reader.pending.tokens[index]? = some token :=
        ⟨_, List.getElem?_eq_getElem (Nat.lt_of_succ_le hle)⟩
      obtain ⟨stop, hlast⟩ := getLast?_upToToken htoken
      obtain ⟨taken, htaken⟩ := List.getLast?_eq_some_iff.1 hlast
      have hmoments := reader.moments_pullSome (index + 1)
      rw [htaken, List.append_assoc] at hmoments
      have hlexer : (reader.pullSome (index + 1)).2.lexer = stop := by
        rw [pullSome, hlast]
        rfl
      refine @Leaves.behind _ _ _ (stopsAmong taken) _ token ?_ rfl ?_ (map_fst_stopsAmong _).symm
      · rw [hlexer, Run.stops, ← hmoments, stopsAmong_append]
        rfl
      · rw [map_fst_stopsAmong]
        show (upToToken (index + 1) reader.pending.moments).filterMap _ = _
        rw [htaken, List.filterMap_append]
        rfl

namespace Leaves

variable {reader left : Reader} {portion : Portion}

/-- A portion and what is left make up what was to come. -/
theorem tokens_append (h : reader.Leaves portion left) :
    portion.tokens ++ left.pending.tokens = reader.pending.tokens := by
  cases h with
  | inFront hstop htokens hlexer hpending => rw [htokens, hpending, List.nil_append]
  | @behind front back token hstops hstop htokens hpending =>
    rw [htokens, hpending, ← map_fst_stops, hstops, List.map_append, List.append_assoc]
    rfl
  | ended hstop htokens hlexer hpending => rw [htokens, hpending, List.append_nil]

/-- What holds wherever a reading can be left holds where a portion leaves it. -/
theorem invariant {holds : Lexer → Prop} (h : reader.Leaves portion left)
    (hstart : holds reader.lexer) (hstops : ∀ stop ∈ reader.pending.stops, holds stop.2)
    (hlast : holds reader.pending.lexer) : holds left.lexer := by
  cases h with
  | inFront hstop htokens hlexer hpending => rwa [hlexer]
  | @behind front back token hsplit hstop htokens hpending =>
    exact hstops (token, left.lexer) (hsplit ▸ List.mem_append_cons_self)
  | ended hstop htokens hlexer hpending => rwa [hlexer]

end Leaves

end Reader

end Offside
