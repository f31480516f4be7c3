import BlockScript.Bench.Props
import BlockScript.Context
import BlockScript.Scene.Compile

/-!
# Scenes on the bench

A scene compiled against recorders, with its variables and objects open to the hand that drives it.
-/

namespace BlockScript.Bench

/-- Recorders beside the state of a scene. -/
abbrev Stage := Recording SceneState

instance : SceneHost Stage where
  scene := Recording.state
  modifyScene := Recording.modifyState
  toggled _ _ w := w

/-- A compiled scene. -/
structure Rehearsal where
  context : Context (Primitive Stage) Stage
  stage : Stage
  /-- The ids of the scripts that could be started, in order. -/
  issued : Array Nat := #[]

/-- A script and how starting it went. -/
structure Started where
  name : String
  kind : String
  answer : Except BlockError Nat

/-- An operation on a compiled scene. -/
inductive RehearsalStep where
  /-- Moves the clock of the recorder and processes a tick of the same length. -/
  | tick (seconds : Float)
  /-- Cancels the `k`-th script that could be started. -/
  | cancel (k : Nat)
  | setVariable (name : String) (v : Value)
  | removeVariable (name : String)
  | readVariable (name : String)
  | hasObject (name : String)
  | dispose
  | poke (p : Poke)

/-- What an operation answers. -/
inductive RehearsalAnswer where
  | outcome (r : Outcome)
  | cancelled (found : Bool)
  | noSuchId
  | cell (present : Bool) (v : Value)
  | object (present : Bool)
  | poke (a : Poke.Answer)

namespace Rehearsal

/-- Starts a script. -/
def start (r : Rehearsal) (name : String) (root : BuiltIn Stage) : Started × Rehearsal :=
  let (answer, context, stage) := r.context.runBlock root r.stage
  let issued := match answer with
    | .ok id => r.issued.push id
    | .error _ => r.issued
  ({ name, kind := root.kind, answer }, { context, stage, issued })

/-- Starts scripts one after another, whether or not each of them can be. -/
def startAll (r : Rehearsal) : List (String × BuiltIn Stage) → List Started × Rehearsal
  | [] => ([], r)
  | (name, root) :: rest =>
    let (s, r) := r.start name root
    let (ss, r) := r.startAll rest
    (s :: ss, r)

/-- Compiles a scene on a bench with one recorder, with further objects that are disabled, and starts its scripts. -/
def new (scene : Scene) (extraObjects : List String) (installed : Bool) :
    Except SceneError (List Started × Rehearsal) := do
  let state ← SceneState.ofScene scene
  let state ← extraObjects.foldlM (fun s name => s.addObject name false) state
  let roots ← scene.compile (Recording.handle 0) state
  let r : Rehearsal := { context := .new (Recording.handle 0), stage := .new 1 installed state }
  pure (r.startAll roots)

/-- Makes an operation. -/
def step (r : Rehearsal) : RehearsalStep → RehearsalAnswer × Rehearsal
  | .tick seconds =>
    let (outcome, context, stage) := r.context.process seconds (r.stage.advance 0 seconds)
    (.outcome outcome, { r with context, stage })
  | .cancel k =>
    match r.issued[k]? with
    | none => (.noSuchId, r)
    | some id =>
      let (found, context, stage) := r.context.cancel id r.stage
      (.cancelled found, { r with context, stage })
  | .setVariable name v =>
    (.outcome (.ok ()), { r with stage := r.stage.modifyState (·.setVariable name v) })
  | .removeVariable name =>
    (.outcome (.ok ()), { r with stage := r.stage.modifyState (·.removeVariable name) })
  | .readVariable name =>
    let table := r.stage.state.table
    (.cell (table.hasField name) (table.getField name), r)
  | .hasObject name => (.object (r.stage.state.objects.contains name), r)
  | .dispose =>
    let (context, stage) := r.context.dispose r.stage
    (.outcome (.ok ()), { r with context, stage })
  | .poke p =>
    let (a, stage) := p.onRecorders 0 r.stage
    (.poke a, { r with stage })

/-- The ids of the scripts that have not finished. -/
def running (r : Rehearsal) : List Nat := r.issued.toList.filter r.context.runner.contains

end Rehearsal

end BlockScript.Bench
