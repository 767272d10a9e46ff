/-!
# Kinds of tokens

A token is a mark of layout, a keyword, a truth value, a name, a number or an
operator. Each kind has a name for listings, and keywords and operators have
the text they are written with.
-/

namespace Offside

/-- A mark made from the layout of the text. -/
inductive Layout where
  | indent
  | dedent
  | newline
  | endOfText
deriving DecidableEq, Repr

def Layout.name : Layout → String
  | indent => "INDENT"
  | dedent => "DEDENT"
  | newline => "NEWLINE"
  | endOfText => "EOF"

def Layout.all : List Layout :=
  [.indent, .dedent, .newline, .endOfText]

/-- A reserved word. -/
inductive Keyword where
  | «and»
  | «break»
  | «def»
  | «elif»
  | «else»
  | «for»
  | «if»
  | «not»
  | «or»
  | «return»
  | «while»
deriving DecidableEq, Repr

def Keyword.text : Keyword → String
  | «and» => "and"
  | «break» => "break"
  | «def» => "def"
  | «elif» => "elif"
  | «else» => "else"
  | «for» => "for"
  | «if» => "if"
  | «not» => "not"
  | «or» => "or"
  | «return» => "return"
  | «while» => "while"

/-- The name of a keyword is the word in capitals. -/
def Keyword.name (keyword : Keyword) : String :=
  String.ofList (keyword.text.toList.map Char.toUpper)

def Keyword.all : List Keyword :=
  [.«and», .«break», .«def», .«elif», .«else», .«for», .«if», .«not», .«or», .«return», .«while»]

/-- The keyword that a word is, if it is one. -/
def Keyword.ofText? (word : String) : Option Keyword :=
  all.find? fun keyword => keyword.text = word

/-- An operator or a punctuation mark. -/
inductive Operator where
  | assign
  | plus
  | minus
  | times
  | dividedBy
  | equal
  | notEqual
  | greater
  | greaterOrEqual
  | less
  | lessOrEqual
  | leftParen
  | rightParen
  | comma
  | colon
deriving DecidableEq, Repr

def Operator.text : Operator → String
  | assign => "="
  | plus => "+"
  | minus => "-"
  | times => "*"
  | dividedBy => "/"
  | equal => "=="
  | notEqual => "!="
  | greater => ">"
  | greaterOrEqual => ">="
  | less => "<"
  | lessOrEqual => "<="
  | leftParen => "("
  | rightParen => ")"
  | comma => ","
  | colon => ":"

def Operator.name : Operator → String
  | assign => "ASSIGN"
  | plus => "PLUS"
  | minus => "MINUS"
  | times => "TIMES"
  | dividedBy => "DIVIDEDBY"
  | equal => "EQ"
  | notEqual => "NEQ"
  | greater => "GT"
  | greaterOrEqual => "GTE"
  | less => "LT"
  | lessOrEqual => "LTE"
  | leftParen => "LPAREN"
  | rightParen => "RPAREN"
  | comma => "COMMA"
  | colon => "COLON"

def Operator.all : List Operator :=
  [.assign, .plus, .minus, .times, .dividedBy, .equal, .notEqual, .greater, .greaterOrEqual,
    .less, .lessOrEqual, .leftParen, .rightParen, .comma, .colon]

-- The operators by the length of their texts, in the order in which they are looked up.

def Operator.doubles : List Operator :=
  [.equal, .notEqual, .greaterOrEqual, .lessOrEqual]

def Operator.singles : List Operator :=
  [.assign, .greater, .less, .plus, .minus, .times, .dividedBy, .leftParen, .rightParen,
    .comma, .colon]

/-- The two look-up tables hold every operator once, each table by the length of the text. -/
theorem Operator.mem_doubles_or_mem_singles (op : Operator) :
    (op ∈ doubles ↔ op.text.length = 2) ∧ (op ∈ singles ↔ op.text.length = 1) := by
  cases op <;> decide

/-- The kind of a token. -/
inductive Kind where
  | layout (mark : Layout)
  | keyword (word : Keyword)
  | boolean
  | identifier
  | float
  | integer
  | operator (op : Operator)
deriving DecidableEq, Repr

namespace Kind

/-- The name of a kind in listings. -/
def name : Kind → String
  | layout mark => mark.name
  | keyword word => word.name
  | boolean => "BOOLEAN"
  | identifier => "IDENTIFIER"
  | float => "FLOAT"
  | integer => "INTEGER"
  | operator op => op.name

/-- All kinds, in order: layout, keywords, literals and names, operators. -/
def all : List Kind :=
  Layout.all.map layout ++ Keyword.all.map keyword ++ [boolean, identifier, float, integer] ++
    Operator.all.map operator

/-- A structural token stands for layout and has no text of its own. -/
def isStructural : Kind → Bool
  | layout _ => true
  | _ => false

/-- The kind with a given name. -/
def ofName? (name : String) : Option Kind :=
  all.find? fun kind => kind.name = name

/-- A kind can be found by its name, so no two kinds share a name. -/
theorem ofName?_name (kind : Kind) : ofName? kind.name = some kind := by
  rcases kind with (_ | _ | _ | _) | word | _ | _ | _ | _ | op
  case keyword => cases word <;> decide +kernel
  case operator => cases op <;> decide +kernel
  all_goals decide +kernel

end Kind

end Offside
