import BlockScript.CommandLine.Arguments
import BlockScript.Diagnostic
import BlockScript.Scenario.Report
import BlockScript.Simulation

/-!
# Commands

What each command prints and how it exits. A command works on what stands at the path it was given.
-/

namespace BlockScript.CommandLine

/-- What a command prints, and the code that it exits with. -/
structure Output where
  exit : Nat := 0
  stdout : String := ""
  stderr : String := ""
  deriving DecidableEq, Repr

/-- Lines as they are printed. -/
def printed (lines : List String) : String := String.join (lines.map (· ++ "\n"))

/-- What a console shows of the lines that are written to it: all of them if it echoes, and none if it does not. -/
def echoed (echo : Bool) (lines : List String) : String := if echo then printed lines else ""

/-- Where the errors of a command are reported: whether in colours, and the file that they are about. -/
structure Reporter where
  colour : Bool
  file : String
  source : String

namespace Reporter

/-- An error of a scene as it is reported. -/
def sceneError (r : Reporter) (e : SceneError) : String :=
  Diagnostic.render r.colour r.file r.source
    { message := e.message, place := (e.labels.head?).map (·.2), notes := e.notes }

/-- An error of a simulation as it is reported. -/
def error (r : Reporter) : SimulationError → String
  | .scene e => r.sceneError e
  | .runtime e => (SimulationError.runtime e).message ++ "\n"

end Reporter

/-- Loads a scene and goes on with it. -/
def withScene (colour : Bool) (path : String) (source : Except ReadError String) (next : Reporter → Scene → Output) :
    Output :=
  match source with
  | .error cause => { exit := 1, stderr := "error: " ++ (SceneError.unreadable path cause).message ++ "\n" }
  | .ok source =>
    let reporter : Reporter := ⟨colour, path, source⟩
    match Scene.parse source 0 with
    | .error e => { exit := 1, stderr := reporter.sceneError e }
    | .ok scene => next reporter scene

/-- Compiles a scene and counts its scripts. The scene is not played but shut down, and its console does not echo. -/
def check (colour : Bool) (path : String) (source : Except ReadError String) : Output :=
  withScene colour path source fun reporter scene =>
    match Simulation.new scene 0.0 with
    | .error e => { exit := 1, stderr := reporter.error e }
    | .ok s =>
      let ended := s.finish
      let count := ended.running.length
      let ending := if count = 1 then "" else "s"
      { stdout := echoed false ended.closed.transcript
        stderr := "ok: " ++ path ++ " compiled (" ++ toString count ++ " script" ++ ending ++ ")\n" }

/-- The last line of a run: that it finished, or the scripts that are left. -/
def closingLine (summary : Summary) (running : List String) : String :=
  let names := ", ".intercalate running
  let after := " after " ++ toString summary.ticks ++ " ticks (" ++ Decimal.fixedText summary.elapsed ++ "s)"
  if names.isEmpty then "finished" ++ after else "stopped" ++ after ++ ", still running: " ++ names

/-- Whether a number of frames per second is refused. -/
def refusesFps (fps : Float) : Bool := fps.isNaN || decide (fps ≤ 0.0)

/-- Plays a scene. Its console echoes unless the run is quiet, and then its variables are printed if they are asked for. The scene is
shut down at last, which is echoed like anything else. -/
def run (colour : Bool) (o : RunOptions) (source : Except ReadError String) : Output :=
  if refusesFps o.fps then
    { exit := 2, stderr := "error: --fps must be positive, got " ++ Decimal.plainText o.fps ++ "\n" }
  else
    withScene colour o.scene source fun reporter scene =>
      let shown := echoed !o.quiet
      match Simulation.play scene o.start o.ticks o.fps with
      | .error (transcript, e) => { exit := 1, stdout := shown transcript, stderr := reporter.error e }
      | .ok (summary, s) =>
        let ended := s.finish
        let values := if o.showVariables then ended.values.map fun (name, v) => name ++ " = " ++ v else []
        { stdout := shown ended.transcript ++ printed values ++ shown ended.added
          stderr := closingLine summary ended.running ++ "\n" }

/-- Runs scenarios or lists their categories. -/
def test (colour : Bool) (o : TestOptions) (found : Except ReadError FileTree) : Output :=
  if o.listCategories then { stderr := printed (Scenario.listCategories o.path found) }
  else
    let (exit, lines) := Scenario.runAll colour o.path o.categories found
    { exit, stderr := printed lines }

/-- The path that a command works on. -/
def Command.path : Command → String
  | run o => o.scene
  | test o => o.path
  | check scene => scene

/-- Carries out a command, given what stands at its path. Diagnostics are coloured if the terminal shows colours, the report
on scenarios whatever the terminal; neither is if colours are switched off. -/
def execute (terminal : Bool) (i : Invocation) (found : Except ReadError FileTree) : Output :=
  let source : Except ReadError String := do (← found).text
  match i.command with
  | .run o => run (terminal && !i.noColor) o source
  | .check scene => check (terminal && !i.noColor) scene source
  | .test o => test (!i.noColor) o found

/-- The name and the version of the program. -/
def versionText : String := "scratch 0.1.0\n"

/-- How the program is used. -/
def helpText : String :=
  "Tick-driven block runtime\n\nUsage: scratch [OPTIONS] <COMMAND>\n\nCommands:\n" ++
  "  run    Run a scene against a simulated clock\n" ++
  "  test   Run .scene.toml scenarios that carry an [expect] table\n" ++
  "  check  Parse and compile a scene without running it\n"

end BlockScript.CommandLine
