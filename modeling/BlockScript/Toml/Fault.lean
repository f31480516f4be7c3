import BlockScript.Decimal.Text
import BlockScript.Text.Inspected
import BlockScript.Toml.Node

/-!
# Faults of data

Why a well-formed document does not describe what it should. A fault names its cause and, where it is known, the place; a place
that a part of the document could not tell is filled in by the parts around it (`Fault.locate`).
-/

namespace BlockScript.Toml

/-- What was found where something else was expected. -/
inductive Found where
  | integer (n : Int)
  | float (x : Float)
  | boolean (b : Bool)
  | text (s : String)
  | sequence
  | map
  /-- A bare name of a variant, where the variant carries data. -/
  | unitVariant

/-- The wording of what was found. -/
def Found.message : Found → String
  | integer n => "integer `" ++ toString n ++ "`"
  | float x => "floating point `" ++ Decimal.pointText x ++ "`"
  | boolean b => "boolean `" ++ toString b ++ "`"
  | text s => "string " ++ Text.inspected s
  | sequence => "sequence"
  | map => "map"
  | unitVariant => "unit variant"

/-- What a node is, as far as its type matters. Dates and times count as maps. -/
def Found.ofNode : Node → Found
  | .text _ s => text s
  | .integer _ n => integer n
  | .float _ x => float x
  | .boolean _ b => boolean b
  | .array .. => sequence
  | .moment .. | .table .. => map

/-- Why data is refused. -/
inductive Cause where
  | invalidType (found : Found) (expected : String)
  /-- A whole number out of range. -/
  | invalidValue (n : Int) (expected : String)
  /-- An array that ends before the field of the given index. -/
  | invalidLength (length : Nat) (expected : String)
  | missingField (name : String)
  | unknownField (name : String) (expected : List String)
  /-- Keys that the table of a variant does not have. -/
  | unexpectedKeys (names available : List String)
  | unknownVariant (name : String) (expected : List String)
  /-- A variant is neither a name nor a table. -/
  | notVariant
  /-- The table of a variant has no key. -/
  | noVariant
  /-- The table of a variant has several keys. -/
  | severalVariants
  /-- A variant without data was given some. -/
  | notEmptyTable
  | notEmptyArray
  | notTable (typeName : String)
  /-- A value that is no literal of any kind. -/
  | noVariantOf (type : String)

/-- A list of alternatives, each in backquotes. -/
def alternatives : List String → String
  | [] => "there are no fields"
  | [a] => "expected `" ++ a ++ "`"
  | [a, b] => "expected `" ++ a ++ "` or `" ++ b ++ "`"
  | names => "expected one of " ++ ", ".intercalate (names.map fun n => "`" ++ n ++ "`")

/-- The wording of a cause. -/
def Cause.message : Cause → String
  | invalidType found expected => "invalid type: " ++ found.message ++ ", expected " ++ expected
  | invalidValue n expected => "invalid value: integer `" ++ toString n ++ "`, expected " ++ expected
  | invalidLength length expected => "invalid length " ++ toString length ++ ", expected " ++ expected
  | missingField name => "missing field `" ++ name ++ "`"
  | unknownField name expected => "unknown field `" ++ name ++ "`, " ++ alternatives expected
  | unexpectedKeys names available =>
    "unexpected keys in table: " ++ ", ".intercalate names ++ ", available keys: " ++ ", ".intercalate available
  | unknownVariant name expected => "unknown variant `" ++ name ++ "`, " ++ alternatives expected
  | notVariant => "wanted string or table"
  | noVariant => "wanted exactly 1 element, found 0 elements"
  | severalVariants => "wanted exactly 1 element, more than 1 element"
  | notEmptyTable => "expected empty table"
  | notEmptyArray => "expected empty array"
  | notTable typeName => "expected table, found " ++ typeName
  | noVariantOf type => "data did not match any variant of untagged enum " ++ type

/-- A cause and the place where it arose. -/
structure Fault where
  cause : Cause
  span : Option Span := none

/-- The answer of a decoder. -/
abbrev Decoded := Except Fault

/-- Refuses without a place. -/
def refuse (cause : Cause) : Decoded α := .error { cause }

/-- Refuses at a place. -/
def refuseAt (span : Option Span) (cause : Cause) : Decoded α := .error { cause, span }

/-- Tells a fault its place, if it has none. -/
def Fault.locate (span : Option Span) (f : Fault) : Fault := { f with span := f.span.or span }

/-- Fills in the place of a fault. -/
def within (span : Option Span) : Decoded α → Decoded α
  | .ok a => .ok a
  | .error f => .error (f.locate span)

end BlockScript.Toml
