import BlockScript.Actions
import BlockScript.Decimal.Text

/-!
# The console host

A host without an engine: a simulated clock and a transcript with one line per action.
-/

namespace BlockScript

/-- A frame clock. -/
structure SimClock where
  now : Float
  /-- The length of the last step. -/
  delta : Float := 0.0

/-- Moves the clock and remembers the step. -/
def SimClock.advance (c : SimClock) (seconds : Float) : SimClock := ⟨c.now + seconds, seconds⟩

/-- A clock and the transcript of everything done so far. -/
structure Console where
  clock : SimClock
  lines : Array String := #[]

namespace Console

/-- A console whose clock starts at a time. -/
def new (start : Float) : Console := { clock := { now := start } }

/-- Adds a line to the transcript. -/
def push (line : String) (c : Console) : Console := { c with lines := c.lines.push line }

/-- Moves the clock. -/
def advance (seconds : Float) (c : Console) : Console := { c with clock := c.clock.advance seconds }

/-- The line of a logged message. -/
def logLine (message : String) : String := "[log] " ++ message

/-- The line of a message shown; its duration is told if it is positive. -/
def sayLine (message : String) (seconds : Float) : String :=
  if 0.0 < seconds then "[say] " ++ message ++ " (" ++ Decimal.plainText seconds ++ "s)" else "[say] " ++ message

/-- The line of a sound; its volume is told unless it is one. -/
def soundLine (name : String) (volume : Float) : String :=
  if volume == 1.0 then "[sound] " ++ name else "[sound] " ++ name ++ " @ " ++ Decimal.plainText volume

/-- The line of an object that is switched. -/
def toggleLine (object : String) (enabled : Bool) : String :=
  (if enabled then "[enable] " else "[disable] ") ++ object

/-- The console as a provider of a world that has one. -/
def provider (get : σ → Console) (modify : (Console → Console) → σ → σ) : Provider σ where
  log message := modify (push (logLine message))
  say message seconds := modify (push (sayLine message seconds))
  playSound name volume := modify (push (soundLine name volume))
  now w := ((get w).clock.now, w)

end Console

end BlockScript
