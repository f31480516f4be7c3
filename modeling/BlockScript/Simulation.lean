import BlockScript.Console
import BlockScript.Context
import BlockScript.Scene.Compile

/-!
# Simulations

A scene loaded into a context of its own and driven by a simulated clock. Whatever it does goes to the transcript of a console.
-/

namespace BlockScript

/-- The world of a simulated scene: the console, the state of the scene, and whether the console is installed as provider. -/
structure Stage where
  console : Console
  scene : SceneState
  installed : Bool := true

namespace Stage

/-- Changes the console. -/
def modifyConsole (f : Console → Console) (s : Stage) : Stage := { s with console := f s.console }

/-- The slot that holds the console. -/
def handle : ActionsHandle Stage where
  provider? s := if s.installed then some (Console.provider console modifyConsole) else none
  clear s := { s with installed := false }

instance : SceneHost Stage where
  scene := scene
  modifyScene f s := { s with scene := f s.scene }
  toggled object enabled := modifyConsole (Console.push (Console.toggleLine object enabled))

end Stage

/-- Why a simulation could not be made or did not go on. -/
inductive SimulationError where
  | scene (e : SceneError)
  | runtime (e : BlockError)

/-- The wording of an error. -/
def SimulationError.message : SimulationError → String
  | scene e => e.message
  | runtime e => "runtime error: " ++ e.message

/-- How a run ended: how many ticks were made, how many scripts were left, and how much time passed since the start. -/
structure Summary where
  ticks : Nat
  active : Nat
  elapsed : Float

/-- Scripts that are being played: the context that holds their roots, and the world of their blocks. -/
structure Simulation (α : Type) (σ : Type) where
  context : Context α σ
  stage : σ
  /-- Every script with the id of its root, in order of declaration. -/
  scripts : List (String × Nat)
  start : Float

/-- A scene that is being played: its scripts are made of the built-in leaves, on a stage. -/
abbrev SceneSimulation := Simulation (Primitive Stage) Stage

namespace Simulation

/-- Registers roots one after another, until one cannot be entered. -/
def register (s : SceneSimulation) : List (String × BuiltIn Stage) → Except BlockError SceneSimulation
  | [] => .ok s
  | (name, root) :: rest =>
    match s.context.runBlock root s.stage with
    | (.error e, _, _) => .error e
    | (.ok id, context, stage) => register { s with context, stage, scripts := s.scripts ++ [(name, id)] } rest

/-- Compiles every script of a scene and registers it as a root. -/
def new (scene : Scene) (start : Float) : Except SimulationError SceneSimulation :=
  match SceneState.ofScene scene with
  | .error e => .error (.scene e)
  | .ok state =>
    match scene.compile Stage.handle state with
    | .error e => .error (.scene e)
    | .ok roots =>
      let empty : SceneSimulation :=
        { context := .new Stage.handle, stage := { console := .new start, scene := state }, scripts := [], start }
      match empty.register roots with
      | .error e => .error (.runtime e)
      | .ok s => .ok s

/-- One frame: the clock moves, and then all roots are advanced. -/
def tick (s : SceneSimulation) (delta : Float) : Outcome × SceneSimulation :=
  let (outcome, context, stage) := s.context.process delta (s.stage.modifyConsole (·.advance delta))
  (outcome, { s with context, stage })

/-- Makes up to a number of ticks, stopping early once every script has finished. Answers the count of all ticks, `ran` being
those made before. -/
def runTicks (delta : Float) (ran : Nat) : Nat → SceneSimulation → Except BlockError Nat × SceneSimulation
  | 0, s => (.ok ran, s)
  | n + 1, s =>
    if s.context.runner.isIdle then (.ok ran, s)
    else
      match s.tick delta with
      | (.error e, s) => (.error e, s)
      | (.ok (), s) => runTicks delta (ran + 1) n s

/-- Runs up to a number of ticks at a number of frames per second. -/
def run (s : SceneSimulation) (ticks : Nat) (fps : Float) : Except BlockError Summary × SceneSimulation :=
  match runTicks (1.0 / fps) 0 ticks s with
  | (.error e, s) => (.error e, s)
  | (.ok ran, s) =>
    (.ok { ticks := ran, active := s.context.runner.size, elapsed := s.stage.console.clock.now - s.start }, s)

/-- The lines written so far. -/
def transcript (s : SceneSimulation) : List String := s.stage.console.lines.toList

/-- The variables as text, in order of their names. -/
def variableTexts (s : SceneSimulation) : List (String × String) :=
  s.stage.scene.table.fields.toList.map fun (name, v) => (name, v.asText)

section

variable {α σ : Type}

/-- The names of the scripts that have not finished. -/
def runningScripts (s : Simulation α σ) : List String :=
  (s.scripts.filter fun x => s.context.runner.contains x.2).map (·.1)

variable [Block α σ]

/-- Cancels every script that has not finished, in order of declaration. -/
def cancelAll (s : Simulation α σ) : Simulation α σ :=
  s.scripts.foldl (fun s (_, id) =>
    let (_, context, stage) := s.context.cancel id s.stage
    { s with context, stage }) s

/-- Cancels every script that has not finished, so that each block is exited, and releases the context. -/
def shutdown (s : Simulation α σ) : Simulation α σ :=
  let s := s.cancelAll
  let (context, stage) := s.context.dispose s.stage
  { s with context, stage }

end

/-- What is read of a simulation at its end, and the simulation as it was shut down after that. -/
structure Ending where
  transcript : List String
  values : List (String × String)
  running : List String
  closed : SceneSimulation

/-- Reads what a simulation came to and shuts it down. -/
def finish (s : SceneSimulation) : Ending where
  transcript := s.transcript
  values := s.variableTexts
  running := s.runningScripts
  closed := s.shutdown

/-- The lines that are written while a simulation is shut down. -/
def Ending.added (e : Ending) : List String := e.closed.transcript.drop e.transcript.length

/-- Plays a scene for up to a number of ticks. An error comes with the lines that were written before it. -/
def play (scene : Scene) (start : Float) (ticks : Nat) (fps : Float) :
    Except (List String × SimulationError) (Summary × SceneSimulation) :=
  match new scene start with
  | .error e => .error ([], e)
  | .ok s =>
    match s.run ticks fps with
    | (.error e, s) => .error (s.transcript, .runtime e)
    | (.ok summary, s) => .ok (summary, s)

end Simulation

end BlockScript
