import Offside.Proofs.Text.Boundary
import Offside.Proofs.Text.Pieces

/-!
# Spots of a text

A character of a text stands on one of its lines, behind what is in front of it there. Lines and
columns tell where it stands just as well as the position in the text does, and in the same order.
-/

namespace Offside

/-- A character of a text with its place: the lines above its own, what is in front of it on its own
    line, and all that is behind it. -/
structure Spot (text : List Char) where
  above : List Char
  start : List Char
  character : Char
  back : List Char
  text_eq : text = above ++ (start ++ character :: back)
  endsLine : EndsLine above
  not_mem : '\n' ∉ start

namespace Spot

variable {text : List Char}

def line (spot : Spot text) : Nat :=
  lineFeeds spot.above + 1

def column (spot : Spot text) : Nat :=
  spot.start.length + 1

/-- The number of characters in front of a spot. -/
def position (spot : Spot text) : Nat :=
  spot.above.length + spot.start.length

end Spot

theorem lineFeeds_append (front back : List Char) :
    lineFeeds (front ++ back) = lineFeeds front + lineFeeds back :=
  List.count_append

theorem eq_of_endsLine_append {front back : List Char} (h : EndsLine (front ++ back))
    (hfeed : '\n' ∉ back) : back = [] := by
  by_contra hne
  have hlast := h (back.getLast hne) (by
    rw [List.getLast?_append_of_ne_nil _ hne, List.getLast?_eq_some_getLast hne]
    rfl)
  exact hfeed (hlast ▸ List.getLast_mem hne)

namespace Spot

variable {text : List Char}

theorem above_isPrefix (spot : Spot text) : spot.above <+: text :=
  ⟨_, spot.text_eq.symm⟩

/-- On one line there is the same above all spots. -/
theorem above_eq {spot other : Spot text} (h : spot.line = other.line) :
    spot.above = other.above := by
  have hfeeds : lineFeeds spot.above = lineFeeds other.above := Nat.succ_injective h
  have hends := spot.endsLine
  have hends' := other.endsLine
  obtain ⟨between, hbetween⟩ | ⟨between, hbetween⟩ :=
    List.prefix_or_prefix_of_prefix spot.above_isPrefix other.above_isPrefix
  all_goals
    rw [← hbetween, lineFeeds_append] at hfeeds
    have hnone : '\n' ∉ between := List.count_eq_zero.1 (by unfold lineFeeds at hfeeds; omega)
  · rw [← hbetween] at hends' ⊢
    rw [eq_of_endsLine_append hends' hnone, List.append_nil]
  · rw [← hbetween] at hends ⊢
    rw [eq_of_endsLine_append hends hnone, List.append_nil]

/-- A spot on a line further up stands in front. -/
theorem position_lt {spot other : Spot text} (h : spot.line < other.line) :
    spot.position < other.position := by
  have hfeeds : lineFeeds spot.above < lineFeeds other.above := Nat.lt_of_succ_lt_succ h
  obtain ⟨between, hbetween⟩ | ⟨between, hbetween⟩ :=
    List.prefix_or_prefix_of_prefix spot.above_isPrefix other.above_isPrefix
  · rw [← hbetween, lineFeeds_append] at hfeeds
    have hmem : '\n' ∈ between := List.count_pos_iff.1 (by unfold lineFeeds at hfeeds; omega)
    -- The line of the first spot ends in between, so this reaches beyond the spot.
    have hsplit := spot.text_eq.symm.trans other.text_eq
    rw [← hbetween, List.append_assoc] at hsplit
    have hpast : spot.start.length < between.length := by
      by_contra hle
      have hreach := List.prefix_of_prefix_length_le
        ⟨_, (List.append_cancel_left hsplit).symm⟩ (List.prefix_append _ _) (Nat.not_lt.1 hle)
      exact spot.not_mem (hreach.subset hmem)
    rw [position, position, ← hbetween, List.length_append]
    omega
  · rw [← hbetween, lineFeeds_append] at hfeeds
    omega

/-- Two spots in the same place are the same. -/
theorem eq_of_column_eq {spot other : Spot text} (hline : spot.line = other.line)
    (hcolumn : spot.column = other.column) : spot = other := by
  have habove := above_eq hline
  obtain ⟨above, start, c, back, htext, _, _⟩ := spot
  obtain ⟨above', start', c', back', htext', _, _⟩ := other
  obtain rfl : above = above' := habove
  have hrest := List.append_cancel_left (htext.symm.trans htext')
  obtain ⟨rfl, htail⟩ := List.append_inj hrest (Nat.succ_injective hcolumn)
  obtain ⟨rfl, rfl⟩ := List.cons.inj htail
  rfl

end Spot

/-- What is in front of a line of a text ends where a line ends. -/
theorem exists_above_of_split {text : List Char} {front rest : List Line} {line : Line}
    (h : Line.split text = front ++ line :: rest) :
    ∃ above back, text = above ++ back ∧ EndsLine above ∧ Line.split above = front ∧
      Line.split back = line :: rest := by
  induction front generalizing text with
  | nil => exact ⟨[], text, rfl, nofun, rfl, h⟩
  | cons first front ih =>
    obtain ⟨piece, behind, rfl, hpiece, rfl, hrest⟩ | ⟨-, -, -, hnone⟩ := split_eq_cons h
    · obtain ⟨above, back, rfl, hends, hfront, hback⟩ := ih hrest.symm
      refine ⟨piece ++ '\n' :: above, back, by simp, ?_, ?_, hback⟩
      · intro c hlast
        rw [List.getLast?_append_of_ne_nil _ (List.cons_ne_nil _ _)] at hlast
        cases above with
        | nil => exact (Option.some.inj hlast).symm
        | cons d above =>
          rw [List.getLast?_cons_cons] at hlast
          exact hends c hlast
      · rw [Line.split, splitAtNewlines_line hpiece, List.map_cons, ← hfront]
        rfl
    · cases front <;> cases hnone

/-- The first line of a text, up to the first line feed if there is one. -/
theorem split_append_of_not_mem {piece back : List Char} (hne : piece ≠ [])
    (hpiece : '\n' ∉ piece) (hback : ∀ c ∈ back.head?, c = '\n') :
    ∃ rest, Line.split (piece ++ back) = .ofPiece piece :: rest := by
  cases back with
  | nil =>
    refine ⟨[], ?_⟩
    rw [List.append_nil, Line.split, splitAtNewlines_of_not_mem hpiece,
      if_neg (by simpa using hne)]
    rfl
  | cons c back =>
    obtain rfl := hback c rfl
    refine ⟨Line.split back, ?_⟩
    rw [Line.split, splitAtNewlines_line hpiece]
    rfl

/-- Behind the last character of a line that is a carriage return there is another one. -/
theorem exists_ofPiece_append {piece : List Char} {position : Nat} {c : Char}
    (h : (Line.ofPiece piece).text[position]? = some c) :
    ∃ more, piece = (Line.ofPiece piece).text.take position ++ c :: more ∧
      (c = '\r' → more ≠ []) := by
  obtain ⟨hlt, hget⟩ := List.getElem?_eq_some_iff.1 h
  have hsplit : (Line.ofPiece piece).text = (Line.ofPiece piece).text.take position ++
      c :: (Line.ofPiece piece).text.drop (position + 1) := by
    rw [← hget, List.getElem_cons_drop, List.take_append_drop]
  by_cases hlast : piece.getLast? = some '\r'
  · obtain ⟨front, rfl⟩ := List.getLast?_eq_some_iff.1 hlast
    have htext : (Line.ofPiece (front ++ ['\r'])).text = front := by simp [Line.ofPiece]
    rw [htext] at hsplit ⊢
    refine ⟨front.drop (position + 1) ++ ['\r'], ?_, fun _ => List.concat_ne_nil _ _⟩
    rw [← List.cons_append, ← List.append_assoc, ← hsplit]
  · have htext : (Line.ofPiece piece).text = piece := if_neg hlast
    rw [htext] at hsplit ⊢
    refine ⟨piece.drop (position + 1), hsplit, ?_⟩
    rintro rfl hnone
    rw [hsplit, hnone, List.getLast?_concat] at hlast
    exact hlast rfl

/-- Every character of a line has its spot. If it is a carriage return, then there is something
    behind it other than a line feed. -/
theorem exists_spot {text : List Char} {index position : Nat} {line : Line} {c : Char}
    (hline : (Line.split text)[index]? = some line) (hc : line.text[position]? = some c) :
    ∃ spot : Spot text, spot.line = index + 1 ∧ spot.start = line.text.take position ∧
      spot.character = c ∧ (c = '\r' → spot.back ≠ [] ∧ spot.back.head? ≠ some '\n') := by
  obtain ⟨hlt, hget⟩ := List.getElem?_eq_some_iff.1 hline
  have hlines : Line.split text =
      (Line.split text).take index ++ line :: (Line.split text).drop (index + 1) := by
    rw [← hget, List.getElem_cons_drop, List.take_append_drop]
  obtain ⟨above, back, rfl, hends, habove, hback⟩ := exists_above_of_split hlines
  have hindex : lineFeeds above = index := by
    rw [← length_split_of_endsLine hends, habove, List.length_take_of_le (Nat.le_of_lt hlt)]
  -- The piece that makes the line, and what is behind it.
  obtain ⟨piece, behind, rfl, hpiece, rfl⟩ : ∃ piece behind, back = piece ++ behind ∧
      '\n' ∉ piece ∧ line = .ofPiece piece := by
    obtain ⟨piece, behind, rfl, hpiece, rfl, -⟩ | ⟨-, hpiece, rfl, -⟩ := split_eq_cons hback
    · exact ⟨piece, '\n' :: behind, rfl, hpiece, rfl⟩
    · exact ⟨back, [], (List.append_nil _).symm, hpiece, rfl⟩
  obtain ⟨more, hmore, hreturn⟩ := exists_ofPiece_append hc
  have hnone : '\n' ∉ (Line.ofPiece piece).text.take position ∧ '\n' ∉ more := by
    rw [hmore, List.mem_append, List.mem_cons, not_or, not_or] at hpiece
    exact ⟨hpiece.1, hpiece.2.2⟩
  refine ⟨⟨above, (Line.ofPiece piece).text.take position, c, more ++ behind, ?_, hends, hnone.1⟩,
    congrArg Nat.succ hindex, rfl, rfl, ?_⟩
  · rw [← List.cons_append, ← List.append_assoc (List.take _ _), ← hmore]
  · intro heq
    cases more with
    | nil => exact absurd rfl (hreturn heq)
    | cons d more =>
      refine ⟨List.cons_ne_nil _ _, ?_⟩
      rintro ⟨⟩
      exact hnone.2 List.mem_cons_self

/-- A character with something behind it other than a line feed is on its line, if it is none
    itself. -/
theorem Spot.exists_line {text : List Char} (spot : Spot text) (hc : spot.character ≠ '\n')
    (hne : spot.back ≠ []) (hback : spot.back.head? ≠ some '\n') :
    ∃ line more, (Line.split text)[lineFeeds spot.above]? = some line ∧
      line.text = spot.start ++ spot.character :: more := by
  obtain ⟨d, back, hcons⟩ := List.exists_cons_of_ne_nil hne
  have hd : d ≠ '\n' := by
    rintro rfl
    exact hback (by rw [hcons, List.head?_cons])
  -- Its line is what is in front of it, and what is behind it up to the next line feed.
  generalize htail : d :: back.takeWhile (· ≠ '\n') = tail
  have hpiece : '\n' ∉ spot.start ++ [spot.character] ++ tail := by
    rw [← htail]
    simp only [List.mem_append, List.mem_cons, List.not_mem_nil, or_false, not_or]
    refine ⟨⟨spot.not_mem, Ne.symm hc⟩, Ne.symm hd, ?_⟩
    intro hmem
    simpa using List.mem_takeWhile_imp hmem
  have hhead : ∀ e ∈ (back.dropWhile (· ≠ '\n')).head?, e = '\n' := by
    intro e hmem
    have hstop := List.head?_dropWhile_not (fun e => decide (e ≠ '\n')) back
    rw [Option.mem_def.1 hmem] at hstop
    simpa using hstop
  have hparts : spot.start ++ spot.character :: spot.back =
      spot.start ++ [spot.character] ++ tail ++ back.dropWhile (· ≠ '\n') := by
    simp [hcons, ← htail]
  obtain ⟨rest, hrest⟩ := split_append_of_not_mem (by simp) hpiece hhead
  have hlines := congrArg Line.split spot.text_eq
  rw [hparts, split_append spot.endsLine, hrest] at hlines
  refine ⟨.ofPiece (spot.start ++ [spot.character] ++ tail), (Line.ofPiece tail).text, ?_, ?_⟩
  · rw [hlines, ← length_split_of_endsLine spot.endsLine,
      List.getElem?_append_right (Nat.le_refl _), Nat.sub_self, List.getElem?_cons_zero]
  · rw [text_ofPiece_append _ (htail ▸ List.cons_ne_nil _ _), List.append_assoc]
    rfl

end Offside
