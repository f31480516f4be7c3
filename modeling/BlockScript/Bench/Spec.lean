import BlockScript.Bench.Props
import BlockScript.Block.Primitive

/-!
# Blocks of the bench

Descriptions of blocks to try out, and the trees they build. Beside the built-in blocks there are probes, which log every call
and can be told to fail, and plain blocks, which take one run to complete.
-/

namespace BlockScript.Bench

/-- A test that a block of the bench polls. -/
inductive Test where
  | not (inner : Test)
  | flag (name : String)
  /-- Whether a counter has reached a number. -/
  | count (name : String) (least : Int)
  /-- Answers a list one by one, and then always the same. -/
  | script (answers : List Bool) (rest : Bool)

/-- A callback of the bench: it logs its name and performs its effects. With a `failure`, as many of its first calls as `times`
says fail, or all of them. -/
structure Callback where
  name : String
  effects : List Poke := []
  failure : Option String := none
  times : Option Nat := none

/-- The settings of a probe: after how many runs it completes, and which of its calls fail, counted from one over its life. -/
structure ProbeSpec where
  name : String
  runs : Int := 1
  failEnter : List Int := []
  failRun : List Int := []

/-- A description of a block. -/
inductive Spec where
  | probe (settings : ProbeSpec)
  | plain
  | execute (callback : Callback)
  | wait (seconds : Float)
  | condition (test : Test)
  | waitUntil (test : Test)
  | sequence (children : List Spec)
  | forever (body : List Spec)
  | foreverWith (callback : Callback)
  | whileTrue (test : Test) (body : List Spec)
  | untilTrue (test : Test) (body : List Spec)
  | say (message : String) (duration : Float)
  | sound (name : String) (volume : Float)
  | log (message : String)
  | enable (object : String)
  | disable (object : String)
  deriving Inhabited

/-- A probe and how often it was called. -/
structure Probe where
  settings : ProbeSpec
  /-- Runs since the last entry. -/
  progress : Nat := 0
  enters : Nat := 0
  runs : Nat := 0

/-- A leaf of the bench. -/
inductive Leaf where
  | probe (p : Probe)
  | plain (done : Bool)
  | primitive (p : Primitive Bench)

/-- Adds an event to the log. -/
def logEvent (event : String) (w : Bench) : Bench := w.modifyState (·.logEvent event)

namespace Probe

/-- Fails with the text given if the call of this number is listed. -/
def outcome (failing : List Int) (call : Nat) (text : String) : Outcome :=
  if failing.contains call then .error (.callback text) else .ok ()

/-- Starts an activation. -/
def enter (p : Probe) (w : Bench) : Outcome × Probe × Bench :=
  let call := p.enters + 1
  let name := p.settings.name
  (outcome p.settings.failEnter call (name ++ " enter " ++ toString call), { p with progress := 0, enters := call },
    logEvent (name ++ ":enter") w)

/-- Makes one step of progress. -/
def run (dt : Float) (p : Probe) (w : Bench) : Outcome × Probe × Bench :=
  let call := p.runs + 1
  let name := p.settings.name
  let step := Decimal.plainText dt
  (outcome p.settings.failRun call (name ++ " run " ++ step ++ " " ++ toString call),
    { p with progress := p.progress + 1, runs := call }, logEvent (name ++ ":run " ++ step) w)

/-- Whether a probe has run as often as it was asked to. -/
def isComplete (p : Probe) : Bool := decide (p.settings.runs ≤ p.progress)

end Probe

namespace Leaf

/-- Logs a call of a probe; the other leaves have nothing to do. -/
def note (call : String) : Leaf → Bench → Leaf × Bench
  | probe p, w => (probe p, logEvent (p.settings.name ++ ":" ++ call) w)
  | leaf, w => (leaf, w)

instance : Block Leaf Bench where
  create := note "create"
  destroy := note "destroy"
  exit := note "exit"
  enter
    | probe p, w => let (r, p, w) := p.enter w; (r, probe p, w)
    | plain _, w => (.ok (), plain false, w)
    | primitive p, w => let (r, p, w) := p.enter w; (r, primitive p, w)
  run
    | dt, probe p, w => let (r, p, w) := p.run dt w; (r, probe p, w)
    | _, plain _, w => (.ok (), plain true, w)
    | _, primitive p, w => let (r, p, w) := p.run w; (r, primitive p, w)
  isComplete
    | probe p, _ => p.isComplete
    | plain done, _ => done
    | primitive p, _ => p.isComplete
  kind
    | probe _ => "probe"
    | plain _ => "block"
    | primitive p => p.kind

end Leaf

/-- Logs a poll and its answer. -/
def polled (name : String) (answer : Bool) (w : Bench) : Bool × Bench :=
  (answer, logEvent ("poll " ++ name ++ "=" ++ toString answer) w)

/-- The answer of a script at a position. -/
def scripted (answers : List Bool) (rest : Bool) (position : Nat) : Bool := answers.getD position rest

/-- Makes a test ready to be polled; a script gets a position of its own. -/
def Test.build : Test → Bench → (Bench → Bool × Bench) × Bench
  | not inner, w =>
    let (poll, w) := inner.build w
    (fun w => let (b, w) := poll w; (!b, w), w)
  | flag name, w => (fun w => polled name (w.state.flags.getD name false) w, w)
  | count name least, w => (fun w => polled name (decide (least ≤ w.state.counters.getD name 0)) w, w)
  | script answers rest, w =>
    let (cell, state) := w.state.newCell
    (fun w =>
      let (position, state) := w.state.tickCell cell
      polled "" (scripted answers rest position) { w with state }, { w with state })

/-- What a callback does: it logs its name and performs its effects on behalf of the context it was built from. -/
def Callback.perform (c : Callback) (context : Nat) (w : Bench) : Bench :=
  c.effects.foldl (fun w poke => (poke.apply context w).2) (logEvent ("exec " ++ c.name) w)

/-- A callback that fails while its count of calls is below `times`. -/
def Callback.build (c : Callback) (context : Nat) (w : Bench) : Primitive Bench × Bench :=
  match c.failure with
  | none => (.perform (c.perform context), w)
  | some text =>
    let (cell, state) := w.state.newCell
    (.attempt fun w =>
      let w := c.perform context w
      let (calls, state) := w.state.tickCell cell
      let fails : Bool := match c.times with
        | none => true
        | some n => decide (calls < n)
      (if fails then .error (.callback text) else .ok (), { w with state }), { w with state })

/-- A leaf that switches an object, which exists from then on. -/
def switching (object : String) (enabled : Bool) (w : Bench) : Tree Leaf Bench × Bench :=
  (.leaf (.primitive (.perform (·.modifyState (·.setSwitch object enabled)))), w.modifyState (·.ensureSwitch object))

mutual

/-- Builds a described block for a context. -/
def Spec.build (context : Nat) : Spec → Bench → Tree Leaf Bench × Bench
  | probe settings, w => (.leaf (.probe { settings }), w)
  | plain, w => (.leaf (.plain false), w)
  | execute c, w => let (p, w) := c.build context w; (.leaf (.primitive p), w)
  | wait seconds, w => (.leaf (.primitive (.waitFor (Recording.handle context) seconds)), w)
  | condition test, w | waitUntil test, w =>
    let (poll, w) := test.build w
    (.leaf (.primitive (.waitUntil poll)), w)
  | sequence children, w => let (ts, w) := Spec.buildAll context children w; (.ofList ts, w)
  | forever body, w => let (ts, w) := Spec.buildAll context body w; (.repeating .forever ts, w)
  | foreverWith c, w => (.repeating .forever [.leaf (.primitive (.perform (c.perform context)))], w)
  | whileTrue test body, w =>
    let (poll, w) := test.build w
    let (ts, w) := Spec.buildAll context body w
    (.repeating (.whileTrue poll) ts, w)
  | untilTrue test body, w =>
    let (poll, w) := test.build w
    let (ts, w) := Spec.buildAll context body w
    (.repeating (.untilTrue poll) ts, w)
  | say message duration, w => (.leaf (.primitive (.say (Recording.handle context) message duration)), w)
  | sound name volume, w => (.leaf (.primitive (.playSound (Recording.handle context) name volume)), w)
  | log message, w => (.leaf (.primitive (.log (Recording.handle context) message)), w)
  | enable object, w => switching object true w
  | disable object, w => switching object false w
termination_by structural s => s

/-- Builds the described blocks one after another. -/
def Spec.buildAll (context : Nat) : List Spec → Bench → List (Tree Leaf Bench) × Bench
  | [], w => ([], w)
  | s :: rest, w =>
    let (t, w) := Spec.build context s w
    let (ts, w) := Spec.buildAll context rest w
    (t :: ts, w)
termination_by structural ss => ss

end

end BlockScript.Bench
