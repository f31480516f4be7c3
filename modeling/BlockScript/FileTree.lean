/-!
# File trees

Files and directories below a working directory, and reading a file by its path. Paths are walked step by step, so that every
part of a path but the last has to be a directory.
-/

namespace BlockScript

/-- Why a file could not be read. -/
inductive ReadError where
  | notFound
  | isDirectory
  | notDirectory
  | nameTooLong
  /-- The path holds a zero character. -/
  | zeroInPath
  | invalidUtf8
  deriving DecidableEq, Repr

/-- The wording of a failure to read. -/
def ReadError.message : ReadError → String
  | notFound => "No such file or directory (os error 2)"
  | isDirectory => "Is a directory (os error 21)"
  | notDirectory => "Not a directory (os error 20)"
  | nameTooLong => "File name too long (os error 36)"
  | zeroInPath => "file name contained an unexpected NUL byte"
  | invalidUtf8 => "stream did not contain valid UTF-8"

/-- A file with its bytes, or a directory. -/
inductive FileTree where
  | file (content : ByteArray)
  | directory (entries : List (String × FileTree))

namespace FileTree

instance : Inhabited FileTree := ⟨.directory []⟩

/-- Whether a tree is a directory. -/
def isDirectory : FileTree → Bool
  | directory _ => true
  | file _ => false

/-- The entries of a directory. -/
def entries : FileTree → List (String × FileTree)
  | directory es => es
  | file _ => []

/-- Puts a tree at a path, making the directories on the way. -/
def insert (t : FileTree) : List String → FileTree → FileTree
  | [], _ => t
  | name :: path, below =>
    let es := below.entries
    let old := (es.lookup name).getD (directory [])
    let new := insert t path old
    if (es.lookup name).isSome then directory (es.map fun e => if e.1 = name then (name, new) else e)
    else directory (es ++ [(name, new)])

/-- The parts of a path between slashes that are not empty and not the directory itself. -/
def parts (path : String) : List String :=
  ((path.splitOn "/").filter fun p => p != "" && p != ".")

/-- The working directory that holds some trees at their paths. A path that ends in the tree of another one keeps what is
there already. -/
def ofList (files : List (String × FileTree)) : FileTree :=
  files.foldl (fun root (path, t) => insert t (parts path) root) (directory [])

/-- Walks the parts of a path. The first argument holds the directories passed on the way to the current tree; nothing is known
of what lies above the first of them, so that directory counts as empty. -/
def walk : List FileTree → FileTree → List String → Except ReadError FileTree
  | _, t, [] => .ok t
  | above, t, part :: path =>
    match t with
    | file _ => .error .notDirectory
    | directory es =>
      if part = "" ∨ part = "." then walk above t path
      else if part = ".." then
        match above with
        | [] => walk [] (directory []) path
        | up :: above => walk above up path
      else if 255 < part.utf8ByteSize then .error .nameTooLong
      else
        match es.lookup part with
        | none => .error .notFound
        | some below => walk (t :: above) below path

/-- The bytes that a path may have at most. -/
def maxPathBytes : Nat := 4095

/-- What stands at a path. A path that starts with a slash does not start from the working directory but from an empty one. -/
def find (root : FileTree) (path : String) : Except ReadError FileTree :=
  if path.contains '\x00' then .error .zeroInPath
  else if path = "" then .error .notFound
  else if maxPathBytes < path.utf8ByteSize then .error .nameTooLong
  else walk [] (if path.startsWith "/" then directory [] else root) (path.splitOn "/")

/-- The text of a file. -/
def text : FileTree → Except ReadError String
  | directory _ => .error .isDirectory
  | file content =>
    match String.fromUTF8? content with
    | some s => .ok s
    | none => .error .invalidUtf8

/-- The text of the file at a path. -/
def readText (root : FileTree) (path : String) : Except ReadError String := do
  (← root.find path).text

end FileTree

end BlockScript
