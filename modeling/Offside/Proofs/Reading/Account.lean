import Offside.Proofs.Layout.Depth
import Offside.Proofs.Layout.Words
import Offside.Proofs.Text.Boundary

/-!
# An account of tokens

What happens to the open blocks can be told from the tokens: which lines open a block and how deep,
and which lines close how many. The account of some tokens puts that into messages, line by line,
with what the end of the text closes and a last message behind them. When only some of the tokens
have been handed out, it goes as far as these do.
-/

namespace Offside

/-- How many blocks are open behind the token that opens a block on the line with the given number:
    as many as have been opened and not closed, counting this one. -/
def depthOpened (number : Nat) (tokens : List Token) : Nat :=
  let front := tokens.takeWhile fun token : Token =>
    ¬ (token.line = number ∧ token.kind = .layout .indent)
  indents front + 1 - dedents front

/-- What is noted about the layout of a line when some tokens have been handed out. The depth and
    the number of blocks are those of all tokens. -/
def CodeLine.layoutMessages (tokens handed : List Token) (line : CodeLine) : List String :=
  (if indents (onLine line.number handed) = 0 then [] else
    ["line " ++ toString line.number ++ ": indent to width " ++ toString line.width ++
      " (depth " ++ toString (depthOpened line.number tokens) ++ ")"]) ++
  (if dedents (onLine line.number handed) = 0 then [] else
    ["line " ++ toString line.number ++ ": dedent " ++
      toString (dedents (onLine line.number tokens)) ++ " level(s) to width " ++
      toString line.width])

/-- What is noted about the blocks that are closed on the line behind the last one. -/
def closingMessages (number : Nat) (tokens handed : List Token) : List String :=
  if dedents (onLine number handed) = 0 then [] else
    ["end of input: closing " ++ toString (dedents (onLine number tokens)) ++ " level(s)"]

def shownName : Option String → String
  | none | some "" => "<string>"
  | some name => name

/-- What is noted about some lines and about the line behind the last one, and then some last
    messages. -/
def accountOf (lines : List CodeLine) (number : Nat) (tokens handed : List Token)
    (last : List String) : List String :=
  lines.flatMap (CodeLine.layoutMessages tokens handed) ++
    (closingMessages number tokens handed ++ last)

/-- All that is noted until a portion of the tokens of a text has been handed out. -/
def account (text : String) (file : Option String) (tokens : List Token) (portion : Portion) :
    List String :=
  accountOf (codeLines text) (lineCount text.toList + 1) tokens portion.tokens <|
    if portion.stop = .done then
      ["tokenized " ++ toString (lineCount text.toList) ++ " line(s) from " ++ shownName file]
    else []

section

variable {tokens handed handed' : List Token} {number : Nat}

theorem indents_onLine_take_le (number count : Nat) (tokens : List Token) :
    indents (onLine number (tokens.take count)) ≤ indents (onLine number tokens) :=
  ((List.take_sublist count tokens).filter _).countP_le

theorem dedents_onLine_take_le (number count : Nat) (tokens : List Token) :
    dedents (onLine number (tokens.take count)) ≤ dedents (onLine number tokens) :=
  ((List.take_sublist count tokens).filter _).countP_le

theorem onLine_cons_of_eq {token : Token} (h : token.line = number) (rest : List Token) :
    onLine number (token :: rest) = token :: onLine number rest :=
  List.filter_cons_of_pos (decide_eq_true h)

theorem indents_onLine_mark_ne_zero (origin : Origin) (rest : List Token) :
    indents (onLine origin.line (origin.mark .indent :: rest)) ≠ 0 := by
  rw [onLine_cons_of_eq rfl, indents_cons]
  simp [Origin.mark]

theorem dedents_onLine_mark_ne_zero (origin : Origin) (rest : List Token) :
    dedents (onLine origin.line (origin.mark .dedent :: rest)) ≠ 0 := by
  rw [onLine_cons_of_eq rfl, dedents_cons]
  simp [Origin.mark]

theorem accountOf_cons (line : CodeLine) (lines : List CodeLine) (number : Nat)
    (tokens handed : List Token) (last : List String) :
    accountOf (line :: lines) number tokens handed last =
      line.layoutMessages tokens handed ++ accountOf lines number tokens handed last := by
  rw [accountOf, List.flatMap_cons, List.append_assoc]
  rfl

/-- Only tokens of the lines in question matter. -/
theorem accountOf_congr {lines : List CodeLine} (last : List String)
    (hlines : ∀ line ∈ lines, onLine line.number handed = onLine line.number handed')
    (hnumber : onLine number handed = onLine number handed') :
    accountOf lines number tokens handed last = accountOf lines number tokens handed' last := by
  have hlayout : lines.flatMap (CodeLine.layoutMessages tokens handed) =
      lines.flatMap (CodeLine.layoutMessages tokens handed') := by
    refine List.flatMap_congr ?_
    intro line hmem
    rw [CodeLine.layoutMessages, CodeLine.layoutMessages, hlines line hmem]
  rw [accountOf, accountOf, hlayout, closingMessages, closingMessages, hnumber]

theorem accountOf_nil (lines : List CodeLine) (number : Nat) (tokens : List Token)
    (last : List String) : accountOf lines number tokens [] last = last := by
  have hlayout : lines.flatMap (CodeLine.layoutMessages tokens []) = [] :=
    List.flatMap_eq_nil_iff.2 fun _ _ => rfl
  rw [accountOf, hlayout]
  rfl

end

theorem dedents_contentTokens (file : Option String) (line : CodeLine) :
    dedents (line.contentTokens file) = 0 := by
  refine List.countP_eq_zero.2 ?_
  intro token hmem
  simpa using (kind_ne_of_mem_contentTokens hmem).2

theorem dedents_marks (origin : Origin) (shift : OpenBlocks.Shift) :
    dedents (shift.marks origin) = match shift with
      | .opened => 0
      | .closed count => count := by
  cases shift with
  | opened => rfl
  | closed count => simp [dedents, OpenBlocks.Shift.marks, List.countP_replicate, Origin.mark]

/-- What is noted when a line does something to the open blocks. -/
def OpenBlocks.Shift.messages (number width depth : Nat) : Shift → List String
  | .opened => [(Note.opened number width depth).message]
  | .closed 0 => []
  | .closed count => [(Note.closed number count width).message]

section

variable {file : Option String} {line : CodeLine} {shift : OpenBlocks.Shift}
  {past later : List Token}

theorem onLine_tokens_append (hlater : ∀ token ∈ later, token.line ≠ line.number) :
    onLine line.number (line.tokens file shift ++ later) = line.tokens file shift := by
  rw [onLine_append, onLine_eq_nil hlater, List.append_nil]
  exact onLine_marks_append_contentTokens file line shift

theorem indents_tokens :
    indents (line.tokens file shift) = if shift = .opened then 1 else 0 := by
  rw [CodeLine.tokens, indents_append, indents_marks, indents_contentTokens, Nat.add_zero]

theorem dedents_tokens :
    dedents (line.tokens file shift) = match shift with
      | .opened => 0
      | .closed count => count := by
  rw [CodeLine.tokens, dedents_append, dedents_marks, dedents_contentTokens, Nat.add_zero]

theorem depthOpened_eq (hpast : ∀ token ∈ past, token.line ≠ line.number) (later : List Token) :
    depthOpened line.number (past ++ (line.origin file).mark .indent :: later) =
      indents past + 1 - dedents past := by
  have hfront : (past ++ (line.origin file).mark .indent :: later).takeWhile (fun token : Token =>
      ¬ (token.line = line.number ∧ token.kind = .layout .indent)) = past := by
    rw [List.takeWhile_append_of_pos, List.takeWhile_cons_of_neg, List.append_nil]
    · simp [Origin.mark, CodeLine.origin]
    · intro token hmem
      simp [hpast token hmem]
  rw [depthOpened, hfront]

/-- Among the first tokens from a line on, those of its layout tell what has been noted about it. -/
theorem layoutMessages_take (hpast : ∀ token ∈ past, token.line ≠ line.number)
    (hlater : ∀ token ∈ later, token.line ≠ line.number) (count : Nat) :
    line.layoutMessages (past ++ (line.tokens file shift ++ later))
        ((line.tokens file shift ++ later).take count) =
      if count = 0 then [] else
        shift.messages line.number line.width (indents past + 1 - dedents past) := by
  have hall := @onLine_tokens_append file line shift later hlater
  have hindents := indents_onLine_take_le line.number count (line.tokens file shift ++ later)
  have hdedents := dedents_onLine_take_le line.number count (line.tokens file shift ++ later)
  rw [hall, indents_tokens] at hindents
  rw [hall, dedents_tokens] at hdedents
  rw [CodeLine.layoutMessages, onLine_append, onLine_eq_nil hpast, List.nil_append, hall,
    dedents_tokens]
  cases count with
  | zero => rfl
  | succ count =>
    rw [if_neg (Nat.succ_ne_zero count)]
    cases shift with
    | opened =>
      have hhanded : indents (onLine line.number
          ((line.tokens file .opened ++ later).take (count + 1))) ≠ 0 :=
        indents_onLine_mark_ne_zero (line.origin file) _
      rw [if_neg hhanded, if_pos (Nat.le_zero.1 hdedents)]
      have hdepth := @depthOpened_eq file line past hpast (line.contentTokens file ++ later)
      exact congrArg (fun depth => [(Note.opened line.number line.width depth).message]) hdepth
    | closed closed =>
      rw [if_pos (Nat.le_zero.1 hindents)]
      cases closed with
      | zero => rw [if_pos (Nat.le_zero.1 hdedents)]; rfl
      | succ closed =>
        have hhanded : dedents (onLine line.number
            ((line.tokens file (.closed (closed + 1)) ++ later).take (count + 1))) ≠ 0 :=
          dedents_onLine_mark_ne_zero (line.origin file) _
        rw [if_neg hhanded]
        rfl

end

/-- The first tokens from a line on hold nothing of another line but what is behind the line. -/
theorem onLine_take_tokens_append {file : Option String} {line : CodeLine}
    {shift : OpenBlocks.Shift} {number : Nat} (hne : number ≠ line.number) (later : List Token)
    (count : Nat) :
    onLine number ((line.tokens file shift ++ later).take count) =
      onLine number (later.take (count - (line.tokens file shift).length)) := by
  have hnone : onLine number ((line.tokens file shift).take count) = [] := by
    refine onLine_eq_nil ?_
    intro token hmem
    rw [line_tokens shift token (List.mem_of_mem_take hmem)]
    exact fun heq => hne (Int.ofNat.inj heq).symm
  rw [List.take_append, onLine_append, hnone, List.nil_append]

theorem dedents_closingTokens (origin : Origin) (marksEnd : Bool) (blocks : OpenBlocks) :
    dedents (closingTokens origin marksEnd blocks) = blocks.depth := by
  have hend : dedents (if marksEnd then [origin.mark .endOfText] else []) = 0 := by
    cases marksEnd <;> rfl
  rw [closingTokens, dedents_append, hend, Nat.add_zero]
  exact dedents_marks origin (.closed blocks.depth)

theorem onLine_closingTokens (origin : Origin) (marksEnd : Bool) (blocks : OpenBlocks) :
    onLine origin.line (closingTokens origin marksEnd blocks) =
      closingTokens origin marksEnd blocks :=
  List.filter_eq_self.2 fun _ hmem => decide_eq_true (line_closingTokens hmem)

/-- Among the first tokens of the end, those that close blocks tell what has been noted there. -/
theorem closingMessages_take {origin : Origin} {past : List Token}
    (hpast : ∀ token ∈ past, token.line ≠ origin.line) (marksEnd : Bool) (blocks : OpenBlocks)
    (count : Nat) :
    closingMessages origin.line (past ++ closingTokens origin marksEnd blocks)
        ((closingTokens origin marksEnd blocks).take count) =
      if blocks.depth = 0 ∨ count = 0 then [] else [(Note.closing blocks.depth).message] := by
  have hle := dedents_onLine_take_le origin.line count (closingTokens origin marksEnd blocks)
  rw [onLine_closingTokens, dedents_closingTokens] at hle
  rw [closingMessages, onLine_append, onLine_eq_nil hpast, List.nil_append, onLine_closingTokens,
    dedents_closingTokens]
  cases count with
  | zero => exact (if_pos rfl).trans (if_pos (.inr rfl)).symm
  | succ count =>
    cases hdepth : blocks.depth with
    | zero => rw [if_pos (Nat.le_zero.1 (hdepth ▸ hle)), if_pos (.inl rfl)]
    | succ depth =>
      have hhanded : dedents (onLine origin.line
          ((closingTokens origin marksEnd blocks).take (count + 1))) ≠ 0 := by
        rw [closingTokens, hdepth]
        exact dedents_onLine_mark_ne_zero origin _
      rw [if_neg hhanded, if_neg (by omega)]
      rfl

end Offside
