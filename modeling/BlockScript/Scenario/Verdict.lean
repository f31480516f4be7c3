import BlockScript.Scenario.Expectation
import BlockScript.Simulation
import BlockScript.Text.Lines

/-!
# Verdicts

Playing a scenario and judging what came of it. A scene that ends with an error is judged by the error alone, one that runs
cleanly by its transcript and by the scripts that are left.
-/

namespace BlockScript

/-- Why a scenario failed. -/
inductive Failure where
  | unreadable (cause : ReadError)
  /-- The expectation could not be decoded. -/
  | invalidExpectation (cause : Expectation.ParseError)
  /-- An error was expected and did not arise. -/
  | ranCleanly (expected : String)
  | outputMismatch (expected actual : List String)
  | activeMismatch (expected actual : Nat)
  | errorMismatch (expected actual : String)
  | unexpectedError (error : String) (transcript : List String)

/-- What came of a scenario. -/
inductive Verdict where
  | pass
  /-- The scene has no expectation. -/
  | skip
  | fail (reason : Failure)

namespace Failure

/-- Lines set in, or a remark that there are none. -/
def indented (lines : List String) : String :=
  if lines.isEmpty then "    (none)" else "\n".intercalate (lines.map ("    " ++ ·))

/-- The wording of a failure. -/
def message : Failure → String
  | unreadable cause => "cannot read file: " ++ cause.message
  | invalidExpectation cause => "invalid [expect] table: " ++ cause.message
  | ranCleanly expected => "expected error containing \"" ++ expected ++ "\", but the scene ran cleanly"
  | outputMismatch expected actual =>
    "output mismatch\n  expected:\n" ++ indented expected ++ "\n  actual:\n" ++ indented actual
  | activeMismatch expected actual =>
    "expected " ++ toString expected ++ " active script(s), got " ++ toString actual
  | errorMismatch expected actual => "expected error containing \"" ++ expected ++ "\", got: " ++ actual
  | unexpectedError error transcript =>
    "unexpected error: " ++ error ++ "\n  transcript so far:\n" ++ indented transcript

end Failure

namespace Expectation

/-- The lines that an expected output asks for: its lines without the white space around them, the empty ones left out. -/
def outputLines (output : String) : List String :=
  (((Text.lines (Text.trim output.toList)).map Text.trim).filter (!·.isEmpty)).map String.ofList

/-- Judges a scene that ran cleanly. -/
def judgeRun (x : Expectation) (transcript : List String) (active : Nat) : Verdict :=
  match x.error, x.output.map outputLines, x.active with
  | some expected, _, _ => .fail (.ranCleanly expected)
  | none, expectedLines, expectedActive =>
    match expectedLines.filter (· != transcript), expectedActive.filter (· != active) with
    | some lines, _ => .fail (.outputMismatch lines transcript)
    | none, some expected => .fail (.activeMismatch expected active)
    | none, none => .pass

/-- Judges a scene that ended with an error. -/
def judgeError (x : Expectation) (transcript : List String) (error : String) : Verdict :=
  match x.error with
  | none => .fail (.unexpectedError error transcript)
  | some expected =>
    if Text.occursIn expected.toList error.toList then .pass else .fail (.errorMismatch expected error)

/-- Plays the scene of a source as an expectation says, shuts it down, and judges what was read of it before. -/
def judge (x : Expectation) (source : String) : Verdict :=
  match Scene.parse source 0 with
  | .error e => x.judgeError [] e.message
  | .ok scene =>
    match Simulation.play scene x.start x.ticks x.fps with
    | .error (transcript, e) => x.judgeError transcript e.message
    | .ok (summary, s) => x.judgeRun s.finish.transcript summary.active

end Expectation

/-- What came of a scenario and how it describes itself. -/
structure ScenarioResult where
  description : Option String := none
  verdict : Verdict

namespace Scenario

/-- Plays the scenario of a source. -/
def runSource (source : String) : ScenarioResult :=
  match Expectation.parse source with
  | .error cause => { verdict := .fail (.invalidExpectation cause) }
  | .ok none => { verdict := .skip }
  | .ok (some x) => { description := x.description, verdict := x.judge source }

/-- Plays the scenario of a file. -/
def runFile (file : Except ReadError String) : ScenarioResult :=
  match file with
  | .error cause => { verdict := .fail (.unreadable cause) }
  | .ok source => runSource source

end Scenario

end BlockScript
