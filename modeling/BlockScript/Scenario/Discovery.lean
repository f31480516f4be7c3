import BlockScript.FileTree
import BlockScript.Scenario.Category

/-!
# Finding scenarios

The scenario files of a directory at any depth, sorted into categories by the folders they are in.
-/

namespace BlockScript

/-- A file with the names on the way to it. -/
structure FoundFile where
  path : List String
  file : FileTree

namespace FoundFile

/-- The name of a file. -/
def name (f : FoundFile) : String := f.path.getLast?.getD ""

/-- Whether a file does not come after another in the order of their paths. -/
def le (f g : FoundFile) : Bool := !g.path.lex f.path fun a b => decide (a < b)

/-- The category of a file: the folders on the way to it, a backslash in a name counting as a slash. -/
def category (f : FoundFile) : String :=
  String.ofList (("/".intercalate f.path.dropLast).toList.map fun c => if c = '\\' then '/' else c)

/-- The path of a file below the path of a directory. -/
def pathBelow (f : FoundFile) (root : String) : String :=
  let below := "/".intercalate f.path
  if root.toList.getLast? = some '/' then root ++ below else root ++ "/" ++ below

end FoundFile

mutual

/-- All files of a tree. -/
def FileTree.allFiles : FileTree → List FoundFile
  | .file content => [⟨[], .file content⟩]
  | .directory entries => FileTree.filesOf entries
termination_by structural t => t

/-- All files of the entries of a directory. -/
def FileTree.filesOf : List (String × FileTree) → List FoundFile
  | [] => []
  | (name, t) :: rest =>
    t.allFiles.map (fun f => { f with path := name :: f.path }) ++ FileTree.filesOf rest
termination_by structural entries => entries

end

namespace Scenario

/-- How the names of scenario files end. -/
def fileEnding : String := ".scene.toml"

/-- Whether a text ends in another one. -/
def endsIn (ending text : List Char) : Bool := ending.reverse.isPrefixOf text.reverse

/-- Whether a file is a scenario file by its name. -/
def isScenario (f : FoundFile) : Bool := endsIn fileEnding.toList f.name.toList

/-- The scenario files of a directory by category, the files of a category in order of their paths. -/
def discover (root : FileTree) : Dictionary (List FoundFile) :=
  let found := root.allFiles.filter isScenario
  Dictionary.group FoundFile.category (found.mergeSort FoundFile.le)

end Scenario

end BlockScript
