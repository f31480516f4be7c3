import BlockScript.CommandLine.Execute

/-!
# The program

Reads what stands at the path that a command was given, carries the command out and prints what it answers.
-/

open BlockScript

/-- What stands at a path of the machine, with everything below it. -/
partial def loadTree (path : String) : IO (Except ReadError FileTree) := do
  let place := (← IO.currentDir) / path
  if path.isEmpty then return .error .notFound
  else if ← place.isDir then
    let mut entries := []
    for entry in ← place.readDir do
      match ← loadTree entry.path.toString with
      | .ok t => entries := (entry.fileName, t) :: entries
      | .error _ => pure ()
    return .ok (.directory entries)
  else
    try
      return .ok (.file (← IO.FS.readBinFile place))
    catch
      | .inappropriateType .. => return .error .notDirectory
      | .invalidArgument .. => return .error .nameTooLong
      | _ => return .error .notFound

/-- Whether the terminal shows colours. -/
def showsColours : IO Bool := do
  let plain := (← IO.getEnv "NO_COLOR").isSome
  match ← IO.getEnv "TERM" with
  | none | some "dumb" => return false
  | some _ => return !plain

/-- Carries out a command line. -/
def main (arguments : List String) : IO UInt32 := do
  match CommandLine.read arguments with
  | none =>
    (← IO.getStderr).putStr CommandLine.helpText
    return 2
  | some .help =>
    (← IO.getStdout).putStr CommandLine.helpText
    return 0
  | some .version =>
    (← IO.getStdout).putStr CommandLine.versionText
    return 0
  | some (.invoke i) =>
    let output := CommandLine.execute (← showsColours) i (← loadTree i.command.path)
    (← IO.getStdout).putStr output.stdout
    (← IO.getStderr).putStr output.stderr
    return output.exit.toUInt32
