import BlockScript.Table
import BlockScript.Value.Comparison

/-!
# Scenes

A scene declares variables, named objects and scripts. A script is a list of steps, and a step describes a block.
-/

namespace BlockScript

/-- A value as it is written in a scene. -/
inductive Literal where
  | boolean (b : Bool)
  | integer (n : Int)
  | float (x : Float)
  | text (s : String)

/-- The cell that holds a literal. -/
def Literal.toValue : Literal → Value
  | boolean b => .boolean b
  | integer n => .ofInt n
  | float x => .number x
  | text s => .text s

/-- Compares a variable with a literal. -/
structure Condition where
  var : String
  comparison : Comparison := .eq
  value : Literal

/-- One step of a script. -/
inductive Step where
  /-- Waits for a number of seconds. -/
  | wait (seconds : Float)
  /-- Shows a message; nothing waits for its duration to pass. -/
  | say (message : String) (duration : Float)
  | playSound (name : String) (volume : Float)
  | log (message : String)
  | enable (object : String)
  | disable (object : String)
  | set (var : String) (value : Literal)
  /-- Adds to a variable, read as a number. -/
  | change (var : String) (amount : Float)
  | waitUntil (condition : Condition)
  | sequence (steps : List Step)
  | repeatForever (body : List Step)
  | repeatWhile (condition : Condition) (body : List Step)
  | repeatUntil (condition : Condition) (body : List Step)

/-- The declaration of an object and whether it is enabled at first. -/
structure ObjectDeclaration where
  name : String
  enabled : Bool := true
  deriving DecidableEq, Repr

/-- A named list of steps. -/
structure Script where
  name : String
  steps : List Step := []

/-- What a scene file describes. -/
structure Scene where
  name : Option String := none
  /-- The declared variables with their initial values. -/
  initial : Dictionary Literal := ∅
  objects : List ObjectDeclaration := []
  scripts : List Script := []

namespace Scene

/-- The name to show for a scene. -/
def displayName (s : Scene) : String := s.name.getD "untitled"

/-- The declared variables as a table of their own. -/
def initialVariables (s : Scene) : Table where
  items := #[]
  fields := s.initial.mapValues fun _ v => v.toValue

end Scene

end BlockScript
