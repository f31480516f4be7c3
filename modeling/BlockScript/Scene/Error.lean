import BlockScript.FileTree
import BlockScript.Toml.Document
import BlockScript.Toml.Fault

/-!
# Errors of scenes

Why a scene could not be loaded or compiled.
-/

namespace BlockScript

/-- Why a scene is refused. -/
inductive SceneError where
  /-- The source is not TOML. -/
  | malformed (cause : Toml.Malformation)
  /-- The source does not describe a scene; `file` is the number under which its place is reported. -/
  | data (fault : Toml.Fault) (file : Nat)
  | unknownObject (name script : String)
  | unknownVariable (name script : String)
  /-- Two objects have the same name. -/
  | duplicateObject (name : String)
  | unreadable (path : String) (cause : ReadError)

namespace SceneError

/-- The wording of an error. -/
def message : SceneError → String
  | malformed cause => cause.message
  | data fault _ => fault.cause.message
  | unknownObject name script => "unknown object '" ++ name ++ "' in script '" ++ script ++ "'"
  | unknownVariable name script => "unknown variable '" ++ name ++ "' in script '" ++ script ++ "'"
  | duplicateObject name => "duplicate object '" ++ name ++ "'"
  | unreadable path cause => "cannot read '" ++ path ++ "': " ++ cause.message

/-- Where in the source the error stands. -/
def span : SceneError → Option Toml.Span
  | data fault _ => fault.span
  | _ => none

/-- The places to point at, each with the number of its file. -/
def labels : SceneError → List (Nat × Toml.Span)
  | data { span := some s, .. } file => [(file, s)]
  | _ => []

/-- What could be done about the error. -/
def notes : SceneError → List String
  | unknownObject .. => ["declare it under [[objects]]"]
  | unknownVariable .. => ["declare it under [variables]"]
  | _ => []

end SceneError

end BlockScript
