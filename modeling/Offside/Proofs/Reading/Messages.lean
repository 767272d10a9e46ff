import Mathlib.Data.List.Basic
import Offside.Diagnostic

/-!
# Where a message names the line

A message begins with the place it is about. If the line is known, its number stands between the
name of the file, if there is one, and all the rest, and nothing else in the message depends on it.
-/

namespace Offside

namespace Diagnostic

/-- What a message says in front of the number of the line. -/
def beforeLine (d : Diagnostic) : String :=
  (namedFile? d.file).elim "" (· ++ ":")

/-- What a message says behind the number of the line. -/
def behindLine (d : Diagnostic) : String :=
  d.column.elim "" (":" ++ toString ·) ++ " " ++ d.problem.text

theorem exists_toList_repr_eq_concat (n : Nat) :
    ∃ front digit, n.repr.toList = front ++ [digit] ∧ digit.isDigit = true := by
  rw [Nat.toList_repr]
  obtain hnil | ⟨front, digit, hdigits⟩ := (Nat.toDigits 10 n).eq_nil_or_concat'
  · exact absurd hnil Nat.toDigits_ne_nil
  · refine ⟨front, digit, hdigits, ?_⟩
    have hmem : digit ∈ Nat.toDigits 10 n := by
      rw [hdigits]
      exact List.mem_concat_self
    exact Nat.isDigit_of_mem_toDigits (by decide) (by decide) hmem

/-- A written number ends with a digit, whatever its sign. -/
theorem exists_toList_toString_eq_concat (number : Int) :
    ∃ front digit, (toString number).toList = front ++ [digit] ∧ digit.isDigit = true := by
  cases number with
  | ofNat n => exact exists_toList_repr_eq_concat n
  | negSucc n =>
    obtain ⟨front, digit, hrepr, hdigit⟩ := exists_toList_repr_eq_concat (n + 1)
    refine ⟨'-' :: front, digit, ?_, hdigit⟩
    show ("-" ++ (n + 1).repr).toList = _
    rw [String.toList_append, hrepr]
    rfl

/-- A place ends with a number, and so there is no colon to be dropped. -/
theorem dropEndColons_append_toString (text : String) (number : Int) :
    dropEndColons (text ++ toString number) = text ++ toString number := by
  obtain ⟨front, digit, hnumber, hdigit⟩ := exists_toList_toString_eq_concat number
  have hcolon : (digit == ':') = false := by
    rw [beq_eq_false_iff_ne]
    rintro rfl
    cases hdigit
  have hreverse : (text ++ toString number).toList.reverse =
      digit :: (text.toList ++ front).reverse := by
    rw [String.toList_append, hnumber, ← List.append_assoc, List.reverse_concat]
  rw [dropEndColons, hreverse, List.dropWhile_cons_of_neg (by simp [hcolon]), ← hreverse,
    List.reverse_reverse, String.ofList_toList]

theorem intercalate_placeParts {d : Diagnostic} {number : Int} (h : d.line = some number) :
    ":".intercalate d.placeParts = d.beforeLine ++ toString number ++
      d.column.elim "" (":" ++ toString ·) := by
  rw [placeParts, beforeLine, h]
  cases namedFile? d.file <;> cases d.column <;> simp [String.append_assoc]

/-- The place of a message about a known line ends with a number, that of the column or the one
    of the line, and so nothing is dropped. -/
theorem placeText_of_line {d : Diagnostic} {number : Int} (h : d.line = some number) :
    d.placeText =
      d.beforeLine ++ toString number ++ d.column.elim "" (":" ++ toString ·) ++ " " := by
  have hparts := intercalate_placeParts h
  have hkept : dropEndColons (":".intercalate d.placeParts) = ":".intercalate d.placeParts := by
    rw [hparts]
    cases d.column with
    | none => simpa using dropEndColons_append_toString d.beforeLine number
    | some column =>
      have hlast := dropEndColons_append_toString (d.beforeLine ++ toString number ++ ":") column
      simpa [String.append_assoc] using hlast
  have hsome : d.placeParts ≠ [] := by
    rw [placeParts, h]
    exact List.append_ne_nil_of_right_ne_nil _ (List.cons_ne_nil _ _)
  obtain ⟨part, rest, hcons⟩ := List.exists_cons_of_ne_nil hsome
  rw [placeText, hcons]
  show dropEndColons (":".intercalate (part :: rest)) ++ " " = _
  rw [← hcons, hkept, hparts]

/-- A message about a known line is made of what stands in front of its number, the number, and
    what stands behind it. -/
theorem message_of_line {d : Diagnostic} {number : Int} (h : d.line = some number) :
    d.message = d.beforeLine ++ toString number ++ d.behindLine := by
  rw [message, placeText_of_line h, behindLine]
  simp only [String.append_assoc]

end Diagnostic

end Offside
