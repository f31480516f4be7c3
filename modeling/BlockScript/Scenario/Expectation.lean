import BlockScript.Scene.Decode

/-!
# Expectations

The `[expect]` table of a scenario: how its scene is to be played, and what should come of it.
-/

namespace BlockScript

open Toml

/-- How a scene is to be played and what should come of it. What is not given is not checked. -/
structure Expectation where
  description : Option String := none
  ticks : Nat := 600
  fps : Float := 30.0
  /-- The clock before the first frame. -/
  start : Float := 0.0
  /-- The lines that the scene should write. -/
  output : Option String := none
  /-- A part of the error that the scene should end with. -/
  error : Option String := none
  /-- How many scripts should be left at the end. -/
  active : Option Nat := none

namespace Expectation

/-- The fields of an expectation, in order. -/
def fields : List String := ["description", "ticks", "fps", "start", "output", "error", "active"]

/-- Decodes a value into the field of a name. -/
def decodeField (x : Expectation) (name : String) (n : Node) : Decoded Expectation :=
  match name with
  | "description" => do pure { x with description := some (← n.decodeText) }
  | "ticks" => do pure { x with ticks := ← n.decodeNat 0x100000000 "u32" }
  | "fps" => do pure { x with fps := ← n.decodeFloat }
  | "start" => do pure { x with start := ← n.decodeFloat }
  | "output" => do pure { x with output := some (← n.decodeText) }
  | "error" => do pure { x with error := some (← n.decodeText) }
  | "active" => do pure { x with active := some (← n.decodeNat 0x10000000000000000 "usize") }
  | _ => pure x

/-- Decodes one entry of the table. -/
def decodeEntry (x : Expectation) (e : Key × Node) : Decoded Expectation :=
  if fields.contains e.1.name then Node.field e (x.decodeField e.1.name) else Node.unknownEntry e fields

/-- An expectation, as a table or as an array of its fields. -/
def decode (n : Node) : Decoded Expectation :=
  match n.entries?, n with
  | some entries, _ => within n.span (entries.foldlM decodeEntry {})
  | none, .array _ span items =>
    within span ((fields.zip items).foldlM (fun x (name, item) => x.decodeField name item) {})
  | none, _ => n.mismatch "struct Expectations"

/-- Why an expectation could not be read: the source is not TOML, or its data is refused. -/
inductive ParseError where
  | malformed (cause : Malformation)
  | data (fault : Fault)

/-- The wording of an error. -/
def ParseError.message : ParseError → String
  | malformed cause => cause.message
  | data fault => fault.cause.message

/-- The expectation of a scenario, if it has one. -/
def parse (source : String) : Except ParseError (Option Expectation) :=
  match Node.parse source with
  | .error cause => .error (.malformed cause)
  | .ok root =>
    let decodeTop (found : Option Expectation) (e : Key × Node) : Decoded (Option Expectation) :=
      if e.1.name = "expect" then do pure (some (← Node.field e decode)) else pure found
    match (root.entries?.getD []).foldlM decodeTop none with
    | .ok x => .ok x
    | .error fault => .error (.data fault)

end Expectation

end BlockScript
