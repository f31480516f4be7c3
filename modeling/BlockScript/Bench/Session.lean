import BlockScript.Bench.Spec
import BlockScript.Context

/-!
# Sessions on the bench

Driving one block by hand (`Manual`), or several contexts that share a bench (`Session`). Each step answers what was done and
leaves the new state; `Fresh` tells the events and records that a step added.
-/

namespace BlockScript.Bench

/-- What a step added to the event log and to the recorders, a recorder's number beside each record. -/
structure Fresh where
  events : List String
  records : List (Nat × ActionRecord)

/-- What was added between two states of the bench. -/
def Fresh.between (before after : Bench) : Fresh where
  events := after.state.events.toList.drop before.state.events.size
  records := after.recordsSince before

/-- A call on a block that is driven by hand. -/
inductive ManualStep where
  | create
  | destroy
  | enter
  | exit
  | run (dt : Float)
  | poke (p : Poke)

/-- What a step answers: how a call ended, or what a poke says. -/
inductive StepAnswer where
  | outcome (r : Outcome)
  | poke (a : Poke.Answer)

/-- One block on the bench. -/
structure Manual where
  block : Tree Leaf Bench
  bench : Bench

namespace Manual

/-- Builds a block on a bench with one context. -/
def new (spec : Spec) (installed : Bool) : Manual :=
  let (block, bench) := spec.build 0 (Recording.new 1 installed {})
  { block, bench }

/-- Makes a call or a poke. -/
def step (m : Manual) : ManualStep → StepAnswer × Manual
  | .create => let (block, bench) := m.block.create m.bench; (.outcome (.ok ()), { block, bench })
  | .destroy => let (block, bench) := m.block.destroy m.bench; (.outcome (.ok ()), { block, bench })
  | .exit => let (block, bench) := m.block.exit m.bench; (.outcome (.ok ()), { block, bench })
  | .enter => let (r, block, bench) := m.block.enter m.bench; (.outcome r, { block, bench })
  | .run dt => let (r, block, bench) := m.block.run dt m.bench; (.outcome r, { block, bench })
  | .poke p => let (a, bench) := p.apply 0 m.bench; (.poke a, { m with bench })

end Manual

/-- An operation on one of the contexts of a session. -/
inductive ContextStep where
  /-- Runs blocks, built for the context `source`, one after another as a root. -/
  | run (blocks : List Spec) (source : Nat)
  /-- Runs one block, built for the context `source`, as a root. -/
  | runBlock (block : Spec) (source : Nat)
  | process (dt : Float)
  /-- Moves the clock of the context's recorder and processes a tick of the same length. -/
  | tick (seconds : Float)
  /-- Cancels the root of the `k`-th id that the context handed out. -/
  | cancel (k : Nat)
  | install
  | dispose
  | debug
  | poke (p : Poke)

/-- What an operation on a context answers. -/
inductive ContextAnswer where
  | outcome (r : Outcome)
  | started (id : Except BlockError Nat)
  | cancelled (found : Bool)
  | noSuchId
  | debug (text : String)
  | poke (a : Poke.Answer)

/-- A context of a session with the ids it handed out, in order. -/
structure Seat where
  context : Context Leaf Bench
  issued : Array Nat := #[]

/-- Several contexts on one bench. -/
structure Session where
  seats : Array Seat
  bench : Bench

namespace Session

/-- A session with a number of contexts, each with its recorder installed or not. -/
def new (contexts : Nat) (installed : Bool) : Session where
  seats := ((List.range contexts).map fun i => { context := .new (Recording.handle i) }).toArray
  bench := .new contexts installed {}

/-- A context of the session. -/
def seat (s : Session) (index : Nat) : Seat := s.seats.getD index { context := .new (Recording.handle index) }

/-- Puts back what an operation leaves of a context and the bench. -/
def update (s : Session) (index : Nat) (seat : Seat) (bench : Bench) : Session :=
  { seats := s.seats.setIfInBounds index seat, bench }

/-- Registers the outcome of starting a root. -/
def started (s : Session) (index : Nat) (seat : Seat) :
    Except BlockError Nat × Context Leaf Bench × Bench → ContextAnswer × Session
  | (.ok id, context, bench) =>
    (.started (.ok id), s.update index { context, issued := seat.issued.push id } bench)
  | (.error e, context, bench) => (.started (.error e), s.update index { seat with context } bench)

/-- One tick of a context. -/
def process (s : Session) (index : Nat) (dt : Float) (bench : Bench) : ContextAnswer × Session :=
  let seat := s.seat index
  let (r, context, bench) := seat.context.process dt bench
  (.outcome r, s.update index { seat with context } bench)

/-- Makes an operation on the context of an index. -/
def step (s : Session) (index : Nat) : ContextStep → ContextAnswer × Session
  | .run blocks source =>
    let seat := s.seat index
    let (ts, bench) := Spec.buildAll source blocks s.bench
    s.started index seat (seat.context.run ts bench)
  | .runBlock block source =>
    let seat := s.seat index
    let (t, bench) := block.build source s.bench
    s.started index seat (seat.context.runBlock t bench)
  | .process dt => s.process index dt s.bench
  | .tick seconds => s.process index seconds (s.bench.advance index seconds)
  | .cancel k =>
    let seat := s.seat index
    match seat.issued[k]? with
    | none => (.noSuchId, s)
    | some id =>
      let (found, context, bench) := seat.context.cancel id s.bench
      (.cancelled found, s.update index { seat with context } bench)
  | .install => (.outcome (.ok ()), { s with bench := s.bench.install index })
  | .dispose =>
    let seat := s.seat index
    let (context, bench) := seat.context.dispose s.bench
    (.outcome (.ok ()), s.update index { seat with context } bench)
  | .debug => (.debug ((s.seat index).context.debugText s.bench), s)
  | .poke p => let (a, bench) := p.apply index s.bench; (.poke a, { s with bench })

/-- The ids handed out by a context whose roots are still active, in order of creation. -/
def running (s : Session) (index : Nat) : List Nat :=
  let seat := s.seat index
  seat.issued.toList.filter seat.context.runner.contains

end Session

end BlockScript.Bench
