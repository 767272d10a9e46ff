import Offside.Binary64.Basic

/-!
# Options

Two settings steer how a text is read. A setting is kept just as it was given and
only its truth is looked at, so any plain value will do.
-/

namespace Offside

/-- A plain value, as it may be given for a setting. -/
inductive Setting where
  | null
  | flag (value : Bool)
  | integer (value : Int)
  | real (value : Binary64)
  | text (value : String)
  | list (items : List Setting)
  | table (fields : List (String × Setting))
deriving Inhabited

/-- A setting is on unless it is null, false, a zero or empty. A text that only spells a
    false value is not empty. -/
def Setting.isOn : Setting → Bool
  | null => false
  | flag value => value
  | integer value => value ≠ 0
  | real value => !value.isZero
  | text value => value ≠ ""
  | list items => !items.isEmpty
  | table fields => !fields.isEmpty

/-- How a text is to be read: whether indentation must agree in tabs and spaces with the
    blocks around it, and whether the end of the text gets a token of its own. -/
structure Options where
  strictIndentation : Setting := .flag false
  emitEof : Setting := .flag false

namespace Options

/-- Options from named fields. A setting without a field keeps its default, and other
    fields are ignored. -/
def ofFields (fields : List (String × Setting)) : Options where
  strictIndentation := (fields.lookup "strict_indentation").getD (.flag false)
  emitEof := (fields.lookup "emit_eof").getD (.flag false)

def isStrict (options : Options) : Bool :=
  options.strictIndentation.isOn

def marksEnd (options : Options) : Bool :=
  options.emitEof.isOn

end Options

end Offside
