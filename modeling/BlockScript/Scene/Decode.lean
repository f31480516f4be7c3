import BlockScript.Scene.Basic
import BlockScript.Scene.Error
import BlockScript.Toml.Decode

/-!
# Decoding scenes

From the tree of a document to a scene. The parts of a document are decoded in their order, and the first fault ends it. Keys
that a scene does not know are passed over at the top level, so that tools can keep tables of their own beside a scene, and
refused everywhere below.
-/

namespace BlockScript

open Toml

/-- A value of any of the kinds a literal has. -/
def Literal.decode : Node → Decoded Literal
  | .boolean _ b => .ok (.boolean b)
  | .integer _ n => .ok (.integer n)
  | .float _ x => .ok (.float x)
  | .text _ s => .ok (.text s)
  | _ => refuse (.noVariantOf "ScriptValue")

namespace Comparison

/-- The names and signs of the comparisons. -/
def spellings : List (String × Comparison) :=
  [("==", .eq), ("eq", .eq), ("!=", .ne), ("ne", .ne), ("<", .lt), ("lt", .lt), ("<=", .le), ("le", .le), (">", .gt),
    ("gt", .gt), (">=", .ge), ("ge", .ge)]

/-- A comparison by its name or sign. -/
def decode : Node → Decoded Comparison :=
  Node.decodeChoice (spellings.map (·.1)) (spellings.lookup ·)

end Comparison

namespace Condition

/-- The fields of a condition. -/
def fields : List String := ["var", "op", "value"]

/-- A condition of which not every field has been seen. -/
structure Partial where
  var : Option String := none
  comparison : Option Comparison := none
  value : Option Literal := none

/-- Decodes one entry of the table of a condition. -/
def decodeEntry (p : Partial) (e : Key × Node) : Decoded Partial :=
  match e.1.name with
  | "var" => do pure { p with var := some (← Node.field e Node.decodeText) }
  | "op" => do pure { p with comparison := some (← Node.field e Comparison.decode) }
  | "value" => do pure { p with value := some (← Node.field e Literal.decode) }
  | _ => Node.unknownEntry e fields

/-- A condition, as a table or as an array of its fields. -/
def decode (n : Node) : Decoded Condition :=
  match n.entries?, n with
  | some entries, _ => within n.span do
    let p ← entries.foldlM decodeEntry {}
    let var ← Node.required "var" p.var
    let value ← Node.required "value" p.value
    pure { var, comparison := p.comparison.getD .eq, value }
  | none, .array _ span items => within span do
    let expected := "struct ConditionSpec with 3 elements"
    let var ← Node.item items 0 expected none Node.decodeText
    let comparison ← Node.item items 1 expected (some .eq) Comparison.decode
    let value ← Node.item items 2 expected none Literal.decode
    pure { var, comparison, value }
  | none, _ => n.mismatch "struct ConditionSpec"

end Condition

namespace Step

/-- The kinds of steps. -/
inductive Kind where
  | wait | say | playSound | log | enable | disable | set | change | waitUntil | sequence | repeatForever | repeatWhile
  | repeatUntil
  deriving DecidableEq, Repr

namespace Kind

/-- The kinds by their names. -/
def names : List (String × Kind) :=
  [("wait", wait), ("say", say), ("play_sound", playSound), ("log", log), ("enable", enable), ("disable", disable),
    ("set", set), ("change", change), ("wait_until", waitUntil), ("sequence", sequence),
    ("repeat_forever", repeatForever), ("repeat_while", repeatWhile), ("repeat_until", repeatUntil)]

/-- The kind of a name. -/
def ofName? (name : String) : Option Kind := names.lookup name

/-- The name under which faults report the record of a kind, for the kinds whose parameters have names. -/
def record? : Kind → Option String
  | say => some "struct variant BlockSpec::Say"
  | playSound => some "struct variant BlockSpec::PlaySound"
  | set => some "struct variant BlockSpec::Set"
  | change => some "struct variant BlockSpec::Change"
  | repeatWhile => some "struct variant BlockSpec::RepeatWhile"
  | repeatUntil => some "struct variant BlockSpec::RepeatUntil"
  | _ => none

/-- What is missing where a kind stands without parameters. -/
def payload (k : Kind) : String := if k.record?.isSome then "struct variant" else "newtype variant"

end Kind

/-- The name of a step that does not exist. -/
def unknown (span : Option Span) (name : String) : Decoded α :=
  refuseAt span (.unknownVariant name (Kind.names.map (·.1)))

/-- A step with two named parameters, as a table or as an array, with an optional default for the second one. -/
def decodePair (record : String) (first second : String) (decodeFirst : Node → Decoded α) (decodeSecond : Node → Decoded β)
    (default : Option β) (n : Node) : Decoded (α × β) := do
  within n.span (n.checkKeys [first, second])
  match n.entries?, n with
  | some entries, _ => within n.span do
    let step (p : Option α × Option β) (e : Key × Node) : Decoded (Option α × Option β) :=
      if e.1.name = first then do pure (some (← Node.field e decodeFirst), p.2)
      else if e.1.name = second then do pure (p.1, some (← Node.field e decodeSecond))
      else pure p
    let p ← entries.foldlM step (none, none)
    let a ← Node.required first p.1
    let b ← Node.required second (p.2.or default)
    pure (a, b)
  | none, .array _ span items => within span do
    let expected := record ++ " with 2 elements"
    let a ← Node.item items 0 expected none decodeFirst
    let b ← Node.item items 1 expected default decodeSecond
    pure (a, b)
  | none, _ => n.mismatch record

/-- The record of a kind in messages. -/
def Kind.record (k : Kind) : String := k.record?.getD ""

mutual

/-- A step: a table with its kind as the only key. -/
def decode : Node → Decoded Step
  | .text span name =>
    match Kind.ofName? name with
    | none => unknown span name
    | some kind => refuseAt span (.invalidType .unitVariant kind.payload)
  | .table _ span [] => refuseAt span .noVariant
  | .table _ span [(key, n)] => within span <|
    match Kind.ofName? key.name with
    | none => unknown key.span key.name
    | some .wait => do pure (wait (← n.decodeFloat))
    | some .say => do
      let (message, duration) ←
        decodePair (Kind.record .say) "message" "duration" Node.decodeText Node.decodeFloat (some 0.0) n
      pure (say message duration)
    | some .playSound => do
      let (name, volume) ←
        decodePair (Kind.record .playSound) "name" "volume" Node.decodeText Node.decodeFloat (some 1.0) n
      pure (playSound name volume)
    | some .log => do pure (log (← n.decodeText))
    | some .enable => do pure (enable (← n.decodeText))
    | some .disable => do pure (disable (← n.decodeText))
    | some .set => do
      let (var, value) ← decodePair (Kind.record .set) "var" "value" Node.decodeText Literal.decode none n
      pure (set var value)
    | some .change => do
      let (var, amount) ← decodePair (Kind.record .change) "var" "by" Node.decodeText Node.decodeFloat none n
      pure (change var amount)
    | some .waitUntil => do pure (waitUntil (← Condition.decode n))
    | some .sequence => do pure (sequence (← decodeList n))
    | some .repeatForever => do pure (repeatForever (← decodeList n))
    | some .repeatWhile => do
      let (condition, body) ← decodeLoop (Kind.record .repeatWhile) n
      pure (repeatWhile condition body)
    | some .repeatUntil => do
      let (condition, body) ← decodeLoop (Kind.record .repeatUntil) n
      pure (repeatUntil condition body)
  | .table _ span (_ :: _ :: _) => refuseAt span .severalVariants
  | n => refuseAt n.span .notVariant
termination_by structural n => n

/-- An array of steps. -/
def decodeList : Node → Decoded (List Step)
  | .array _ span items => within span (decodeItems items)
  | n => n.mismatch "a sequence"
termination_by structural n => n

/-- Steps one after another. -/
def decodeItems : List Node → Decoded (List Step)
  | [] => .ok []
  | n :: rest => do
    let step ← decode n
    let steps ← decodeItems rest
    pure (step :: steps)
termination_by structural ns => ns

/-- The condition and the body of a loop. -/
def decodeLoop (record : String) : Node → Decoded (Condition × List Step)
  | .table style span entries => within span do
    Node.checkKeys ["condition", "blocks"] (.table style span entries)
    decodeLoopEntries none none entries
  | .moment span _ => refuseAt span (.missingField "condition")
  | .array _ span [] => refuseAt span (.invalidLength 0 (record ++ " with 2 elements"))
  | .array _ span [c] => within span do
    let _ ← Condition.decode c
    refuse (.invalidLength 1 (record ++ " with 2 elements"))
  | .array _ span (c :: body :: _) => within span do
    let condition ← Condition.decode c
    let steps ← decodeList body
    pure (condition, steps)
  | n => n.mismatch record
termination_by structural n => n

/-- The entries of the table of a loop, after those that were seen before. -/
def decodeLoopEntries (condition : Option Condition) (body : Option (List Step)) :
    List (Key × Node) → Decoded (Condition × List Step)
  | [] => do
    let condition ← Node.required "condition" condition
    let body ← Node.required "blocks" body
    pure (condition, body)
  | (key, n) :: rest =>
    if key.name = "condition" then do
      let c ← within (n.span.or key.span) (Condition.decode n)
      decodeLoopEntries (some c) body rest
    else do
      let steps ← within (n.span.or key.span) (decodeList n)
      decodeLoopEntries condition (some steps) rest
termination_by structural entries => entries

end

end Step

/-- A record with a name and one more field, which may be left out: as a table or as an array of its fields. -/
def Scene.decodeNamed (record second : String) (decodeSecond : Node → Decoded α) (default : α) (n : Node) :
    Decoded (String × α) :=
  match n.entries?, n with
  | some entries, _ => within n.span do
    let step (p : Option String × Option α) (e : Key × Node) : Decoded (Option String × Option α) :=
      if e.1.name = "name" then do pure (some (← Node.field e Node.decodeText), p.2)
      else if e.1.name = second then do pure (p.1, some (← Node.field e decodeSecond))
      else Node.unknownEntry e ["name", second]
    let p ← entries.foldlM step (none, none)
    let name ← Node.required "name" p.1
    pure (name, p.2.getD default)
  | none, .array _ span items => within span do
    let expected := record ++ " with 2 elements"
    let name ← Node.item items 0 expected none Node.decodeText
    let a ← Node.item items 1 expected (some default) decodeSecond
    pure (name, a)
  | none, _ => n.mismatch record

/-- The declaration of an object. -/
def ObjectDeclaration.decode (n : Node) : Decoded ObjectDeclaration := do
  let (name, enabled) ← Scene.decodeNamed "struct ObjectSpec" "enabled" Node.decodeBoolean true n
  pure { name, enabled }

/-- A script. -/
def Script.decode (n : Node) : Decoded Script := do
  let (name, steps) ← Scene.decodeNamed "struct ScriptSpec" "blocks" Step.decodeList [] n
  pure { name, steps }

namespace Scene

/-- The declared variables. -/
def decodeVariables (n : Node) : Decoded (Dictionary Literal) :=
  match n.entries? with
  | some entries => within n.span <|
    entries.foldlM (fun d e => do pure (d.insert e.1.name (← Node.field e Literal.decode))) ∅
  | none => n.mismatch "a map"

/-- Decodes one entry of the top level. -/
def decodeEntry (s : Scene) (e : Key × Node) : Decoded Scene :=
  match e.1.name with
  | "name" => do pure { s with name := some (← Node.field e Node.decodeText) }
  | "variables" => do pure { s with initial := ← Node.field e decodeVariables }
  | "objects" => do pure { s with objects := ← Node.field e (Node.decodeItems ObjectDeclaration.decode) }
  | "scripts" => do pure { s with scripts := ← Node.field e (Node.decodeItems Script.decode) }
  | _ => pure s

/-- The scene that the tree of a document describes. -/
def decode (n : Node) : Decoded Scene := (n.entries?.getD []).foldlM decodeEntry {}

/-- Reads a scene from its source; `file` is the number under which places in the source are reported. -/
def parse (source : String) (file : Nat) : Except SceneError Scene :=
  match Node.parse source with
  | .error cause => .error (.malformed cause)
  | .ok root =>
    match decode root with
    | .error fault => .error (.data fault file)
    | .ok scene => .ok scene

/-- Reads a scene from a file. -/
def load (root : FileTree) (path : String) : Except SceneError Scene :=
  match root.readText path with
  | .error cause => .error (.unreadable path cause)
  | .ok source => parse source 0

end Scene

end BlockScript
