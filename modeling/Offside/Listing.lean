import Offside.Token.Basic

/-!
# Listings

A listing shows tokens as text, one on each line: the name of the kind and, unless
the token is structural, a separator and what matters about the token.
-/

namespace Offside.Listing

/-- The shortest decimal form of a whole number as it is written: leading zeros are left
    out, a zero has no sign, and nothing but a zero is left of no digits. -/
def shortInteger (value : List Char) : List Char :=
  let digits := (value.dropWhile (· == '-')).dropWhile (· == '0')
  if digits = [] then ['0']
  else if value.head? = some '-' then '-' :: digits
  else digits

/-- What matters about a token: truth in words, an integer in its shortest form, the value
    of a float, and else the text. -/
def payload (token : Token) : String :=
  match token.kind with
  | .boolean => if token.literal.isTrue then "true" else "false"
  | .integer => String.ofList (shortInteger token.value.toList)
  | .float => token.literal.text
  | _ => token.value

def defaultSeparator : String := "\t"

/-- The line of a token, without its end. -/
def line (separator : String) (token : Token) : String :=
  if token.isStructural then token.kind.name
  else token.kind.name ++ separator ++ payload token

/-- The listing of some tokens: their lines, each with a line feed at its end. -/
def text (separator : String) (tokens : List Token) : String :=
  String.join (tokens.map fun token => line separator token ++ "\n")

example : shortInteger "-007".toList = "-7".toList ∧ shortInteger "-0".toList = "0".toList ∧
    shortInteger "--05".toList = "-5".toList := by
  decide +kernel

end Offside.Listing
