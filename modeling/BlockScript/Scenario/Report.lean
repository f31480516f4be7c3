import BlockScript.Scenario.Discovery
import BlockScript.Scenario.Verdict

/-!
# Reports on scenarios

Running the scenarios of a directory, or a single file, and telling what came of each.
-/

namespace BlockScript.Scenario

/-- A scenario that was run: where it is, how it is named, and what came of it. -/
structure Entry where
  path : String
  name : String
  result : ScenarioResult

/-- A name without the ending of scenario files, however often it is there. -/
def trimEnding (name : List Char) : List Char :=
  if _h : endsIn fileEnding.toList name ∧ name.length ≠ 0 then
    trimEnding (name.take (name.length - fileEnding.toList.length))
  else name
termination_by name.length
decreasing_by
  have : 0 < fileEnding.toList.length := by decide
  simp only [List.length_take]
  omega

/-- How a scenario is listed: by its description, or else by the name of its file. -/
def Entry.label (e : Entry) : String :=
  e.result.description.getD (String.ofList (trimEnding e.name.toList))

/-- The scenarios that a directory or file was asked for, by category. -/
abbrev Plan := Dictionary (List (String × String × Except ReadError String))

/-- The plan of a single file. -/
def planFile (path : String) (file : FileTree) : Plan :=
  (∅ : Plan).insert "" [(path, (FileTree.parts path).getLast?.getD "?", file.text)]

/-- The plan of the files found below a path. -/
def planFound (path : String) (found : Dictionary (List FoundFile)) : Plan :=
  found.mapValues fun _ files => files.map fun f => (f.pathBelow path, f.name, f.file.text)

/-- Runs a plan. -/
def runPlan (p : Plan) : List (String × List Entry) :=
  p.toList.map fun (category, files) =>
    (category, files.map fun (path, name, content) => { path, name, result := runFile content })

/-- All scenarios of a run. -/
def entriesOf (run : List (String × List Entry)) : List Entry := run.flatMap (·.2)

/-- Whether a scenario passed. -/
def Entry.passed (e : Entry) : Bool := match e.result.verdict with
  | .pass => true
  | _ => false

/-- Whether a scenario was skipped. -/
def Entry.skipped (e : Entry) : Bool := match e.result.verdict with
  | .skip => true
  | _ => false

/-- Why a scenario failed, if it did. -/
def Entry.failure? (e : Entry) : Option Failure := match e.result.verdict with
  | .fail reason => some reason
  | _ => none

/-- A text in a colour or style, unless there are to be no colours. -/
def paint (colour : Bool) (code text : String) : String :=
  if colour then "\x1b[" ++ code ++ "m" ++ text ++ "\x1b[0m" else text

/-- The line of a scenario. -/
def Entry.line (colour : Bool) (e : Entry) : String :=
  let mark := match e.result.verdict with
    | .pass => paint colour "32" "PASS"
    | .skip => paint colour "33" "SKIP"
    | .fail _ => paint colour "31" "FAIL"
  "  " ++ mark ++ "  " ++ e.label

/-- The lines of a category. -/
def categoryLines (colour : Bool) (run : String × List Entry) : List String :=
  "" :: paint colour "1" (Category.label run.1) :: run.2.map (Entry.line colour)

/-- The lines that explain a failure. -/
def failureLines (e : Entry) (reason : Failure) : List String :=
  "" :: ("  --- " ++ e.path ++ " ---") ::
    (Text.lines reason.message.toList).map fun l => "  " ++ String.ofList l

/-- The lines that explain all failures, if there are any. -/
def failuresLines (entries : List Entry) : List String :=
  let explained := entries.flatMap fun e => (e.failure?.map (failureLines e)).getD []
  if explained.isEmpty then [] else "" :: "failures:" :: explained

/-- The last lines of a report. -/
def totalLines (colour : Bool) (entries : List Entry) : List String :=
  let passed := entries.countP Entry.passed
  let skipped := entries.countP Entry.skipped
  let failed := entries.countP fun e => e.failure?.isSome
  let line :=
    if failed = 0 then
      "test result: " ++ paint colour "32" "ok" ++ ". " ++ toString passed ++ " passed, 0 failed, " ++
        toString skipped ++ " skipped"
    else
      "test result: " ++ paint colour "31" "FAILED" ++ ". " ++ toString passed ++ " passed, " ++ toString failed ++
        " failed, " ++ toString skipped ++ " skipped (of " ++ toString (passed + failed + skipped) ++ ")"
  ["", line]

/-- The lines of a report, and the code to exit with: zero if nothing failed. -/
def report (colour : Bool) (run : List (String × List Entry)) : Nat × List String :=
  let entries := entriesOf run
  (if entries.any (fun e => e.failure?.isSome) then 1 else 0,
    run.flatMap (categoryLines colour) ++ failuresLines entries ++ totalLines colour entries)

/-- What is said where no scenario is found. -/
def nothingFound (path : String) : String := "no " ++ fileEnding ++ " files found in " ++ path

/-- The warning about a request that picks nothing. -/
def unmatchedLine (all : Dictionary α) (request : String) : String :=
  "warning: category '" ++ request ++ "' not found (available: " ++
    ", ".intercalate (all.keys.map Category.label) ++ ")"

/-- Runs the scenarios of what stands at a path: of a file, whatever is requested, or of the requested categories of a
directory. Answers the code to exit with and the lines to print. -/
def runAll (colour : Bool) (path : String) (requests : List String) (found : Except ReadError FileTree) :
    Nat × List String :=
  match found with
  | .ok (.file content) => report colour (runPlan (planFile path (.file content)))
  | _ =>
    let all := (found.toOption.map discover).getD ∅
    if all.entries.isEmpty then (1, [nothingFound path])
    else
      let warnings := (Category.unmatched requests all).map (unmatchedLine all)
      let chosen := Category.select requests all
      if chosen.entries.isEmpty then (1, warnings ++ ["no matching categories found"])
      else
        let (exit, lines) := report colour (runPlan (planFound path chosen))
        (exit, warnings ++ lines)

/-- The lines that list the categories of a directory. -/
def listCategories (path : String) (found : Except ReadError FileTree) : List String :=
  match found with
  | .ok (.file _) => ["(single file, no categories)"]
  | _ =>
    let all := (found.toOption.map discover).getD ∅
    if all.entries.isEmpty then [nothingFound path]
    else
      "available categories:" :: all.toList.map fun (category, files) =>
        "  " ++ Category.label category ++ " (" ++ toString files.length ++ " scenes)"

end BlockScript.Scenario
