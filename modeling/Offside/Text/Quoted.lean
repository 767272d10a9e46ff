import Offside.Text.Printable

/-!
# Quoted text

The one-line written form of a text inside messages. A text stands between two
delimiters; the delimiter, the backslash and every character without a visible
shape are written as escapes, so the written form is printable throughout and
never breaks a line.
-/

namespace Offside.Text

/-- The last `places` hexadecimal digits of a number, lower case, leading digit first. -/
def hexDigits (places n : Nat) : List Char :=
  ((List.range places).map fun place => Nat.digitChar (n / Nat.pow 16 place % 16)).reverse

/-- The written form of a character by its code point: two, four or eight
    hexadecimal digits, whichever is the first that suffices. -/
def escapeCode (c : Char) : List Char :=
  if c.toNat < 0x100 then '\\' :: 'x' :: hexDigits 2 c.toNat
  else if c.toNat < 0x10000 then '\\' :: 'u' :: hexDigits 4 c.toNat
  else '\\' :: 'U' :: hexDigits 8 c.toNat

/-- The written form of one character between two marks `mark`. The mark and the
    backslash get a backslash in front, line feed, carriage return and tab have a
    letter, and any other character that is not printable is written by its code. -/
def escape (mark c : Char) : List Char :=
  if c = mark ∨ c = '\\' then ['\\', c]
  else if c = '\n' then ['\\', 'n']
  else if c = '\r' then ['\\', 'r']
  else if c = '\t' then ['\\', 't']
  else if isPrintable c then [c]
  else escapeCode c

/-- The quotation mark for a text: the single one, unless the text holds single
    marks and no double one, when the double mark saves the escapes. -/
def delimiter (text : List Char) : Char :=
  if '\x27' ∈ text ∧ '\x22' ∉ text then '\x22' else '\x27'

/-- The quoted form of a text, on one line. -/
def quote (text : String) : String :=
  let mark := delimiter text.toList
  String.ofList (mark :: text.toList.flatMap (escape mark) ++ [mark])

/-- A text whose characters stand for themselves is only put between single marks. -/
theorem quote_eq_of_plain {text : List Char}
    (h : ∀ c ∈ text, isPrintable c = true ∧ c ≠ '\x27' ∧ c ≠ '\\' ∧
      c ≠ '\n' ∧ c ≠ '\r' ∧ c ≠ '\t') :
    quote (String.ofList text) = String.ofList ('\x27' :: text ++ ['\x27']) := by
  have hmark : delimiter text = '\x27' := by
    have : '\x27' ∉ text := fun hmem => (h _ hmem).2.1 rfl
    simp [delimiter, this]
  have hself : text.flatMap (escape '\x27') = text := by
    clear hmark
    induction text with
    | nil => rfl
    | cons c rest ih =>
      obtain ⟨hprint, hquote, hslash, hlf, hcr, htab⟩ := h c (by simp)
      rw [List.flatMap_cons, ih fun d hd => h d (by simp [hd])]
      simp [escape, hprint, hquote, hslash, hlf, hcr, htab]
  simp [quote, hmark, hself]

example : quote "ab" = "'ab'" := by decide +kernel

example : quote "it's\t\u00e9\u0000" = "\x22it's\\t\u00e9\\x00\x22" := by decide +kernel

end Offside.Text
