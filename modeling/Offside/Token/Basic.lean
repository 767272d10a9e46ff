import Offside.Place
import Offside.Text.Quoted
import Offside.Token.Kind
import Offside.Token.Literal

/-!
# Tokens

A token is a piece of a line with its kind, its text, its place and the value it
denotes. Structural tokens have no text.
-/

namespace Offside

/-- A piece of a line: its kind, its text as it stands there, its place, and the value it
    denotes. -/
structure Token where
  kind : Kind
  value : String := ""
  line : Int := 1
  column : Int := 1
  literal : Literal := .absent
  file : Option String := none
deriving DecidableEq, Repr

namespace Token

/-- Two tokens are the same when they agree in every part, literals as numbers. -/
def Same (a b : Token) : Prop :=
  a.kind = b.kind ∧ a.value = b.value ∧ a.line = b.line ∧ a.column = b.column ∧
    a.literal.Same b.literal ∧ a.file = b.file

instance (a b : Token) : Decidable (Same a b) :=
  inferInstanceAs (Decidable (_ ∧ _))

/-- Two tokens have the same shape when they agree in kind and text. -/
def SameShape (a b : Token) : Prop :=
  a.kind = b.kind ∧ a.value = b.value

instance (a b : Token) : Decidable (SameShape a b) :=
  inferInstanceAs (Decidable (_ ∧ _))

def isStructural (token : Token) : Bool :=
  token.kind.isStructural

def span (token : Token) : Span where
  line := token.line
  column := token.column
  endColumn := some (token.column + token.value.length)
  file := token.file

/-- A one-line description: kind, quoted text unless the token is structural, place. -/
def description (token : Token) : String :=
  let text := if token.isStructural then [] else [Text.quote token.value]
  let place := toString token.line ++ ":" ++ toString token.column
  "Token(" ++ ", ".intercalate (token.kind.name :: text ++ [place]) ++ ")"

/-- Two lists hold the same tokens in the same order. -/
def sameAll (as bs : List Token) : Bool :=
  as.isEqv bs fun a b => a.Same b

/-- Two lists hold tokens of the same shapes in the same order. -/
def sameShapes (as bs : List Token) : Bool :=
  as.isEqv bs fun a b => a.SameShape b

end Token

end Offside
