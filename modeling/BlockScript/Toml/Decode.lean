import BlockScript.Double
import BlockScript.Toml.Fault

/-!
# Decoding nodes

Decoders for plain values, and the pieces that decoders of records are made of. A record may be written as a table or, its
fields in order, as an array.
-/

namespace BlockScript.Toml.Node

/-- The key under which a date or a time shows where a table is expected. -/
def momentKey : String := "$__toml_private_datetime"

/-- The entries of a node where a table is expected; a date or a time counts as a table with its text. -/
def entries? : Node → Option (List (Key × Node))
  | table _ _ entries => some entries
  | moment _ s => some [({ name := momentKey }, text none s)]
  | _ => none

/-- A node of a wrong type. -/
def mismatch (n : Node) (expected : String) : Decoded α := refuseAt n.span (.invalidType (.ofNode n) expected)

/-- A text. -/
def decodeText : Node → Decoded String
  | text _ s => .ok s
  | n => n.mismatch "a string"

/-- A truth value. -/
def decodeBoolean : Node → Decoded Bool
  | boolean _ b => .ok b
  | n => n.mismatch "a boolean"

/-- A double, which may be written as an integer. -/
def decodeFloat : Node → Decoded Float
  | float _ x => .ok x
  | integer _ n => .ok (Double.ofInt n)
  | n => n.mismatch "f64"

/-- A natural number below a bound, the bound having a name. -/
def decodeNat (bound : Nat) (name : String) : Node → Decoded Nat
  | integer span n =>
    if 0 ≤ n ∧ n < bound then .ok n.toNat else refuseAt span (.invalidValue n name)
  | n => n.mismatch name

/-- The value of an entry; a fault without a place of its own stands at the value or else at the key. -/
def field (e : Key × Node) (decode : Node → Decoded α) : Decoded α :=
  within (e.2.span.or e.1.span) (decode e.2)

/-- A field that has to be there. -/
def required (name : String) : Option α → Decoded α
  | some a => .ok a
  | none => refuse (.missingField name)

/-- The item of an array for the field of an index, which may be left out if it has a default. -/
def item (items : List Node) (index : Nat) (expected : String) (default : Option α) (decode : Node → Decoded α) :
    Decoded α :=
  match items[index]?, default with
  | some n, _ => decode n
  | none, some a => .ok a
  | none, none => refuse (.invalidLength index expected)

/-- An entry that a record does not have. -/
def unknownEntry (e : Key × Node) (names : List String) : Decoded α :=
  refuseAt e.1.span (.unknownField e.1.name names)

/-- What is wrong with the keys of the table of a variant: those that the variant does not have. -/
def checkKeys (names : List String) : Node → Decoded Unit
  | table _ _ entries =>
    match entries.filter fun e => !names.contains e.1.name with
    | [] => .ok ()
    | e :: rest => refuseAt e.1.span (.unexpectedKeys ((e :: rest).map (·.1.name)) names)
  | _ => .ok ()

/-- The name of the type of a node. -/
def typeName : Node → String
  | text .. => "string"
  | integer .. => "integer"
  | float .. => "float"
  | boolean .. => "boolean"
  | moment .. => "datetime"
  | array false .. => "array"
  | array true .. => "array of tables"
  | table .braces .. => "inline table"
  | table .. => "table"

/-- A variant without data may be given an empty table or array. -/
def decodeNothing : Node → Decoded Unit
  | table _ span entries => if entries.isEmpty then .ok () else refuseAt span .notEmptyTable
  | array headers span items =>
    if items.isEmpty then .ok () else refuseAt span (if headers then .notEmptyArray else .notEmptyTable)
  | n => refuseAt n.span (.notTable n.typeName)

/-- A choice among names without data, written as a name or as a table with one key. -/
def decodeChoice (names : List String) (choose : String → Option α) (n : Node) : Decoded α :=
  let pick (span : Option Span) (name : String) : Decoded α :=
    match choose name with
    | some a => .ok a
    | none => refuseAt span (.unknownVariant name names)
  within n.span <|
    match n with
    | text span s => pick span s
    | table _ _ [] => refuse .noVariant
    | table _ _ [(k, v)] => do
      let a ← pick k.span k.name
      decodeNothing v
      .ok a
    | table .. => refuse .severalVariants
    | _ => refuse .notVariant

/-- The items of an array, one after another. -/
def decodeItems (decode : Node → Decoded α) (n : Node) : Decoded (List α) :=
  match n with
  | array _ span items => within span (items.mapM decode)
  | n => n.mismatch "a sequence"

end BlockScript.Toml.Node
