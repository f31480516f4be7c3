import BlockScript.Actions

/-!
# Recording hosts

A host with hand-driven clocks that records every action. It has one slot per context and any number of recorders; a slot names
the recorder installed in it. Each context also has a recorder of its own, the one that is installed next, whether or not its
slot holds it.
-/

namespace BlockScript

/-- An action that a recorder was asked for. -/
inductive ActionRecord where
  | log (message : String)
  | say (message : String) (duration : Float)
  | sound (name : String) (volume : Float)

/-- A provider with a hand-driven clock that records every call. -/
structure Recorder where
  now : Float := 0.0
  /-- The length of the last step of the clock. -/
  delta : Float := 0.0
  records : Array ActionRecord := #[]
  deriving Inhabited

namespace Recorder

/-- Sets the clock. -/
def setTime (r : Recorder) (seconds : Float) : Recorder := { r with now := seconds }

/-- Moves the clock and remembers the step. -/
def advance (r : Recorder) (seconds : Float) : Recorder := { r with now := r.now + seconds, delta := seconds }

/-- Adds a record. -/
def push (r : Recorder) (record : ActionRecord) : Recorder := { r with records := r.records.push record }

/-- The messages shown, in order. -/
def messages (r : Recorder) : List String :=
  r.records.toList.filterMap fun
    | .say message _ => some message
    | _ => none

end Recorder

/-- A recording host beside a state `ρ` of its own. -/
structure Recording (ρ : Type) where
  /-- For each context, the number of the recorder in its slot. -/
  slots : Array (Option Nat)
  /-- For each context, the number of its own recorder. -/
  current : Array Nat
  recorders : Array Recorder
  state : ρ

namespace Recording

variable {ρ : Type}

/-- A host for a number of contexts, each with a recorder of its own that is installed or not. -/
def new (contexts : Nat) (installed : Bool) (state : ρ) : Recording ρ where
  slots := ((List.range contexts).map fun i => if installed then some i else none).toArray
  current := (List.range contexts).toArray
  recorders := Array.replicate contexts {}
  state := state

/-- Changes the state beside the host. -/
def modifyState (f : ρ → ρ) (w : Recording ρ) : Recording ρ := { w with state := f w.state }

/-- Changes a recorder. -/
def modifyRecorder (number : Nat) (f : Recorder → Recorder) (w : Recording ρ) : Recording ρ :=
  { w with recorders := w.recorders.modify number f }

/-- The recorder of a number. -/
def recorder (w : Recording ρ) (number : Nat) : Recorder := w.recorders.getD number {}

/-- The number of a context's own recorder. -/
def currentOf (w : Recording ρ) (context : Nat) : Nat := w.current.getD context 0

/-- A recorder as a provider. -/
def provider (number : Nat) : Provider (Recording ρ) where
  log message := modifyRecorder number (·.push (.log message))
  say message seconds := modifyRecorder number (·.push (.say message seconds))
  playSound name volume := modifyRecorder number (·.push (.sound name volume))
  now w := ((w.recorder number).now, w)

/-- The handle to a context's slot. -/
def handle (context : Nat) : ActionsHandle (Recording ρ) where
  provider? w := (w.slots.getD context none).map provider
  clear w := { w with slots := w.slots.setIfInBounds context none }

/-- Installs a context's own recorder in its slot. -/
def install (context : Nat) (w : Recording ρ) : Recording ρ :=
  { w with slots := w.slots.setIfInBounds context (some (w.currentOf context)) }

/-- Makes a new recorder the context's own and installs it. -/
def installNew (context : Nat) (w : Recording ρ) : Recording ρ :=
  install context
    { w with current := w.current.setIfInBounds context w.recorders.size, recorders := w.recorders.push {} }

/-- Sets the clock of a context's own recorder. -/
def setTime (context : Nat) (seconds : Float) (w : Recording ρ) : Recording ρ :=
  w.modifyRecorder (w.currentOf context) (·.setTime seconds)

/-- Moves the clock of a context's own recorder. -/
def advance (context : Nat) (seconds : Float) (w : Recording ρ) : Recording ρ :=
  w.modifyRecorder (w.currentOf context) (·.advance seconds)

/-- The records that every recorder has beyond those it had before, the recorders in order of their numbers. -/
def recordsSince (after before : Recording ρ) : List (Nat × ActionRecord) :=
  (List.range after.recorders.size).flatMap fun number =>
    ((after.recorder number).records.toList.drop (before.recorder number).records.size).map (number, ·)

end Recording

end BlockScript
