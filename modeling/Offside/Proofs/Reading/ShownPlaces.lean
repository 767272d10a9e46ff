import Mathlib.Data.List.DropRight
import Offside.Proofs.Reading.Concatenation
import Offside.Proofs.Reading.Messages

/-!
# The place that a message shows

In front of a message stands the place that it is about: file, line and column, as far as they are
known. A place with a line is shown as it is, in the form that a span has. Where the line is not
known the name of the file is the whole place, and colons at the end of that name are dropped
together with the separator.
-/

namespace Offside

namespace Diagnostic

/-- The place of a diagnostic: the name of the file unless it is empty, the line, and the column
    if there is a line, each as it is, with colons between them. -/
def fullPlace (d : Diagnostic) : String :=
  ":".intercalate (d.file.toList.filter (· ≠ "") ++ (d.line.map toString).toList ++
    if d.line.isSome then (d.column.map toString).toList else [])

/-- The message with the whole place in front. It is the wording alone if neither file nor line
    are known. -/
def fullMessage (d : Diagnostic) : String :=
  if d.file.getD "" = "" ∧ d.line = none then d.problem.text
  else d.fullPlace ++ " " ++ d.problem.text

def colons (count : Nat) : String :=
  String.ofList (List.replicate count ':')

/-- Nothing is dropped just when the text does not end with a colon. -/
theorem dropEndColons_eq_self_iff {text : String} :
    dropEndColons text = text ↔ text.toList.getLast? ≠ some ':' := by
  have hlist : dropEndColons text = text ↔ text.toList.rdropWhile (· == ':') = text.toList := by
    rw [← String.toList_inj, dropEndColons, String.toList_ofList]
    rfl
  rw [hlist, List.rdropWhile_eq_self_iff]
  constructor
  · intro hkept hlast
    obtain ⟨front, hfront⟩ := List.getLast?_eq_some_iff.1 hlast
    simp [hfront] at hkept
  · intro hlast hne hcolon
    rw [beq_iff_eq] at hcolon
    exact hlast (List.getLast?_eq_some_getLast hne ▸ congrArg some hcolon)

/-- Of a text with colons at its end the colons are dropped, and nothing else. -/
theorem dropEndColons_append_colons {text : String} (h : text.toList.getLast? ≠ some ':')
    (count : Nat) : dropEndColons (text ++ colons count) = text := by
  have hall : ∀ c ∈ List.replicate count ':', (c == ':') = true := by
    intro c hmem
    rw [(List.mem_replicate.1 hmem).2]
    rfl
  have hdropped : dropEndColons (text ++ colons count) = dropEndColons text := by
    rw [dropEndColons, String.toList_append, colons, String.toList_ofList, List.reverse_append,
      List.reverse_replicate, List.dropWhile_append_of_pos hall]
    rfl
  rw [hdropped, dropEndColons_eq_self_iff.2 h]

section

variable {d : Diagnostic}

theorem toList_namedFile? (file : Option String) :
    (namedFile? file).toList = file.toList.filter (· ≠ "") := by
  cases file with
  | none => rfl
  | some name =>
    by_cases hne : name = "" <;> simp [namedFile?, hne]

theorem fullPlace_eq (d : Diagnostic) : d.fullPlace = ":".intercalate d.placeParts := by
  rw [fullPlace, placeParts, toList_namedFile?]
  cases d.line <;> simp

/-- With a line the place is shown as it is, since it ends with a number. -/
theorem message_of_line_eq_fullMessage {line : Int} (h : d.line = some line) :
    d.message = d.fullMessage := by
  have hplace : d.placeText = d.fullPlace ++ " " := by
    rw [placeText_of_line h, fullPlace_eq, intercalate_placeParts h]
  rw [message, fullMessage, if_neg (by simp [h]), hplace]

/-- The place of a name without a line is the name. -/
theorem placeParts_of_name {name : String} (hline : d.line = none) (hfile : d.file = some name)
    (hne : name ≠ "") : d.placeParts = [name] := by
  rw [placeParts, toList_namedFile?, hline, hfile]
  simp [hne]

theorem message_of_name {name : String} (hline : d.line = none) (hfile : d.file = some name)
    (hne : name ≠ "") : d.message = dropEndColons name ++ " " ++ d.problem.text := by
  rw [message, placeText, placeParts_of_name hline hfile hne]
  rfl

theorem fullMessage_of_name {name : String} (hline : d.line = none) (hfile : d.file = some name)
    (hne : name ≠ "") : d.fullMessage = name ++ " " ++ d.problem.text := by
  rw [fullMessage, if_neg (by simp [hfile, hne]), fullPlace_eq, placeParts_of_name hline hfile hne]
  rfl

theorem message_of_nowhere (hline : d.line = none) (hfile : d.file.getD "" = "") :
    d.message = d.fullMessage := by
  have hparts : d.placeParts = [] := by
    rw [placeParts, toList_namedFile?, hline]
    cases hname : d.file <;> simp_all
  rw [message, placeText, hparts, fullMessage, if_pos ⟨hfile, hline⟩]
  exact String.empty_append

/-- A line and a column in full are what a span shows that starts there. -/
theorem fullPlace_eq_text {line column : Int} (hline : d.line = some line)
    (hcolumn : d.column = some column) (endColumn : Option Int) :
    d.fullPlace = Span.text ⟨line, column, endColumn, d.file⟩ := by
  rw [fullPlace_eq, placeParts, Span.text, hline, hcolumn]
  rfl

end

/-- A message shows its whole place just when there is a line or the name of the file does not end
    with a colon. If it does not, what is missing are the colons at the end of the name and nothing
    else. A place with line and column is that of a span. -/
theorem message_eq_fullMessage_iff (d : Diagnostic) :
    (d.message = d.fullMessage ↔
      (d.line = none → ∀ name ∈ d.file, name.toList.getLast? ≠ some ':')) ∧
    (∀ (kept : String) (count : Nat), d.line = none → d.file = some (kept ++ colons count) →
      kept.toList.getLast? ≠ some ':' → kept ++ colons count ≠ "" →
        d.message = kept ++ " " ++ d.problem.text) ∧
    ∀ (line column : Int) (endColumn : Option Int), d.line = some line →
      d.column = some column → d.fullPlace = Span.text ⟨line, column, endColumn, d.file⟩ := by
  refine ⟨?_, ?_, fun _ _ endColumn hline hcolumn => fullPlace_eq_text hline hcolumn endColumn⟩
  · cases hline : d.line with
    | some line => simp [message_of_line_eq_fullMessage hline]
    | none =>
      by_cases hfile : d.file.getD "" = ""
      · refine ⟨fun _ _ name hname => ?_, fun _ => message_of_nowhere hline hfile⟩
        obtain rfl : name = "" := by simpa [Option.mem_def.1 hname] using hfile
        simp
      · obtain ⟨name, hname⟩ := Option.ne_none_iff_exists'.1
          (fun hnone => hfile (by rw [hnone]; rfl) : d.file ≠ none)
        have hne : name ≠ "" := by simpa [hname] using hfile
        rw [message_of_name hline hname hne, fullMessage_of_name hline hname hne,
          String.append_left_inj, String.append_left_inj, dropEndColons_eq_self_iff]
        simp [hname]
  · intro kept count hline hfile hkept hne
    rw [message_of_name hline hfile hne, dropEndColons_append_colons hkept]

/-- With a line the colon at the end of the name stays, and without one all such colons go
    missing. -/
theorem message_eq_fullMessage_iff_colon :
    message ⟨.unrecognized "!", some 3, some 7, some "C:"⟩ =
        fullMessage ⟨.unrecognized "!", some 3, some 7, some "C:"⟩ ∧
      fullPlace ⟨.unrecognized "!", some 3, some 7, some "C:"⟩ =
        Span.text ⟨3, 7, none, some "C:"⟩ ∧
      message ⟨.described "lost", none, none, some "C::"⟩ = "C lost" :=
  ⟨(message_eq_fullMessage_iff _).1.2 nofun, (message_eq_fullMessage_iff _).2.2 3 7 none rfl rfl,
    (message_eq_fullMessage_iff _).2.1 "C" 2 rfl rfl (by decide) (by decide)⟩

/-- The colon that the name of a file ends with is not shown. -/
theorem message_of_name_ending_in_colon :
    message ⟨.described "lost", none, none, some "C:"⟩ = "C lost" ∧
      fullMessage ⟨.described "lost", none, none, some "C:"⟩ = "C: lost" ∧
      message ⟨.described "lost", none, none, some "C:"⟩ ≠
        fullMessage ⟨.described "lost", none, none, some "C:"⟩ := by
  decide +kernel

end Diagnostic

/-- A reading reports nothing without its line, so its messages show the whole place, whatever the
    file is called. -/
theorem message_of_tokenize {text : String} {file : Option String} {options : Options}
    {diagnostic : Diagnostic} (h : tokenize text file options = .error diagnostic) :
    diagnostic.message = diagnostic.fullMessage := by
  obtain ⟨number, hline, -⟩ := exists_line_of_tokenize h
  exact Diagnostic.message_of_line_eq_fullMessage hline

end Offside
