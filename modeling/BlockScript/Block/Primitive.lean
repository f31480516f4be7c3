import BlockScript.Actions
import BlockScript.Block.Tree
import BlockScript.Decimal.Text

/-!
# Primitive blocks

The built-in leaves: a callback that fires once per activation, a wait on the host's clock, and a gate that polls a test. They
all ignore the length of the tick.
-/

namespace BlockScript

/-- A built-in leaf over a world `σ`. -/
inductive Primitive (σ : Type v) where
  /-- Fires its callback on the first run after entry; a callback that fails counts as fired. -/
  | execute (callback : σ → Outcome × σ) (executed : Bool)
  /-- Completes once the clock has moved `duration` seconds past `start`, the reading on entry. `now` is the last reading. -/
  | wait (duration start now : Float) (clock : ActionsHandle σ)
  /-- Polls its test once per run and completes on the first run that reads true. -/
  | condition (test : σ → Bool × σ) (result : Bool)

namespace Primitive

variable {σ : Type v}

/-- Starts an activation, discarding all progress. A wait whose clock cannot be read keeps its readings. -/
def enter : Primitive σ → σ → Outcome × Primitive σ × σ
  | execute callback _, w => (.ok (), execute callback false, w)
  | condition test _, w => (.ok (), condition test false, w)
  | wait duration start now clock, w =>
    match clock.currentTime w with
    | (.ok t, w) => (.ok (), wait duration t t clock, w)
    | (.error e, w) => (.error e, wait duration start now clock, w)

/-- Advances by one tick. -/
def run : Primitive σ → σ → Outcome × Primitive σ × σ
  | execute callback executed, w =>
    if executed then (.ok (), execute callback true, w)
    else
      let (r, w) := callback w
      (r, execute callback true, w)
  | condition test _, w =>
    let (b, w) := test w
    (.ok (), condition test b, w)
  | wait duration start now clock, w =>
    match clock.currentTime w with
    | (.ok t, w) => (.ok (), wait duration start t clock, w)
    | (.error e, w) => (.error e, wait duration start now clock, w)

/-- Whether the activation has finished, as of the last run or entry. -/
def isComplete : Primitive σ → Bool
  | execute _ executed => executed
  | condition _ result => result
  | wait duration start now _ => decide (start + duration ≤ now)

/-- The name of the kind of leaf. -/
def kind : Primitive σ → String
  | execute .. => "execute"
  | wait .. => "wait"
  | condition .. => "condition"

instance : Block (Primitive σ) σ where
  create b w := (b, w)
  destroy b w := (b, w)
  enter := enter
  run _ := run
  exit b w := (b, w)
  isComplete b _ := b.isComplete
  kind := kind

/-- The seconds that a wait has left as of its last reading; none when that is not a positive number. -/
def remaining (duration start now : Float) : Float :=
  let left := start + duration - now
  if 0.0 < left then left else 0.0

/-- A leaf as it is shown for inspection. -/
def debugText (w : σ) : Primitive σ → String
  | execute _ executed => "Execute \x7b executed: " ++ toString executed ++ ", .. \x7d"
  | condition _ result => "Condition \x7b result: " ++ toString result ++ ", .. \x7d"
  | wait duration start now clock =>
    "Wait \x7b duration: " ++ Decimal.debugText duration ++ ", start: " ++ Decimal.debugText start ++
      ", now: " ++ Decimal.debugText now ++ ", clock: " ++ clock.debugText w ++ " \x7d"

/-- A callback that cannot fail. -/
def perform (effect : σ → σ) : Primitive σ := execute (fun w => (.ok (), effect w)) false

/-- A callback that may fail. -/
def attempt (callback : σ → Outcome × σ) : Primitive σ := execute callback false

/-- Holds for a number of seconds of the clock behind a handle. -/
def waitFor (clock : ActionsHandle σ) (seconds : Float) : Primitive σ := wait seconds 0.0 0.0 clock

/-- Holds until a test reads true on a tick. -/
def waitUntil (test : σ → Bool × σ) : Primitive σ := condition test false

/-- Shows a message for a number of seconds, without holding. -/
def say (h : ActionsHandle σ) (message : String) (seconds : Float) : Primitive σ :=
  attempt (h.act (·.say message seconds))

/-- Plays a sound at a volume, without holding. -/
def playSound (h : ActionsHandle σ) (name : String) (volume : Float) : Primitive σ :=
  attempt (h.act (·.playSound name volume))

/-- Writes a message to the log. -/
def log (h : ActionsHandle σ) (message : String) : Primitive σ := attempt (h.act (·.log message))

end Primitive

/-- A tree of built-in blocks. -/
abbrev BuiltIn (σ : Type v) := Tree (Primitive σ) σ

end BlockScript
