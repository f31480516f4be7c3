import BlockScript.Dictionary
import BlockScript.Recording

/-!
# Props of the bench

What callbacks and tests on the bench see and change beside the recorders: an event log, named flags and counters, and switches
that remember how they were set. `Poke` lists what can be done to the bench by hand or from inside a callback.
-/

namespace BlockScript

/-- An object that remembers every call to switch it. -/
structure Switch where
  enabled : Bool := false
  history : Array Bool := #[]

/-- Switches an object. -/
def Switch.set (s : Switch) (enabled : Bool) : Switch := ⟨enabled, s.history.push enabled⟩

/-- The state that callbacks and tests share. -/
structure Props where
  events : Array String := #[]
  flags : Dictionary Bool := ∅
  counters : Dictionary Int := ∅
  switches : Dictionary Switch := ∅
  /-- Counts private to one callback or test. -/
  cells : Array Nat := #[]
  deriving Inhabited

namespace Props

/-- Adds an event to the log. -/
def logEvent (event : String) (p : Props) : Props := { p with events := p.events.push event }

/-- Sets a flag. -/
def setFlag (name : String) (b : Bool) (p : Props) : Props := { p with flags := p.flags.insert name b }

/-- Adds to a counter. -/
def addCount (name : String) (n : Int) (p : Props) : Props :=
  { p with counters := p.counters.insert name (p.counters.getD name 0 + n) }

/-- Makes sure that a switch exists; a new one is off. -/
def ensureSwitch (name : String) (p : Props) : Props :=
  if p.switches.contains name then p else { p with switches := p.switches.insert name {} }

/-- Sets a switch. -/
def setSwitch (name : String) (enabled : Bool) (p : Props) : Props :=
  { p with switches := p.switches.modify name (·.set enabled) }

/-- Adds a private count that starts at zero, answering its number. -/
def newCell (p : Props) : Nat × Props := (p.cells.size, { p with cells := p.cells.push 0 })

/-- Adds one to a private count, answering what it was. -/
def tickCell (cell : Nat) (p : Props) : Nat × Props :=
  (p.cells.getD cell 0, { p with cells := p.cells.modify cell (· + 1) })

end Props

/-- The world of blocks on the bench. -/
abbrev Bench := Recording Props

/-- Something done to the bench by hand or from inside a callback, on behalf of one context. -/
inductive Poke where
  | flag (name : String) (value : Bool)
  | count (name : String) (amount : Int)
  | time (seconds : Float)
  | advance (seconds : Float)
  | install
  | installNew
  | clear
  | clock
  | messages
  | switches
  deriving Inhabited

/-- What a poke answers. -/
inductive Poke.Answer where
  | done
  | clock (installed : Bool) (now : Except BlockError Float) (delta : Float) (debug : String)
  | messages (texts : List String)
  | switches (all : List (String × Switch))

namespace Poke

variable {ρ : Type}

/-- What a poke that concerns the recorders alone does, in any recording host. The others do nothing there. -/
def onRecorders (context : Nat) (w : Recording ρ) : Poke → Poke.Answer × Recording ρ
  | time seconds => (.done, w.setTime context seconds)
  | advance seconds => (.done, w.advance context seconds)
  | install => (.done, w.install context)
  | installNew => (.done, w.installNew context)
  | clear => (.done, (Recording.handle context).clear w)
  | clock =>
    let h : ActionsHandle (Recording ρ) := Recording.handle context
    let delta := (w.recorder (w.currentOf context)).delta
    (.clock (h.isInstalled w) (h.currentTime w).1 delta (h.debugText w), w)
  | messages => (.messages (w.recorder (w.currentOf context)).messages, w)
  | flag .. | count .. | switches => (.done, w)

/-- What a poke does to the bench. -/
def apply (context : Nat) (w : Bench) : Poke → Poke.Answer × Bench
  | flag name b => (.done, w.modifyState (·.setFlag name b))
  | count name n => (.done, w.modifyState (·.addCount name n))
  | switches => (.switches w.state.switches.toList, w)
  | other => other.onRecorders context w

end Poke

end BlockScript
