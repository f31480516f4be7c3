import BlockScript.Scene.Basic
import BlockScript.Scene.Error

/-!
# Hosts of scenes

The state that compiled scripts read and write, and what a world has to offer to hold it.
-/

namespace BlockScript

/-- The variables and the objects of a scene, each object with whether it is enabled. -/
structure SceneState where
  table : Table
  objects : Dictionary Bool

namespace SceneState

/-- Adds an object. A name that is taken is refused. -/
def addObject (s : SceneState) (name : String) (enabled : Bool) : Except SceneError SceneState :=
  if s.objects.contains name then .error (.duplicateObject name)
  else .ok { s with objects := s.objects.insert name enabled }

/-- The state that a scene declares. -/
def ofScene (scene : Scene) : Except SceneError SceneState :=
  scene.objects.foldlM (fun s o => s.addObject o.name o.enabled) { table := scene.initialVariables, objects := ∅ }

/-- Writes a variable. -/
def setVariable (name : String) (v : Value) (s : SceneState) : SceneState :=
  { s with table := s.table.setField name v }

/-- Takes a variable away. -/
def removeVariable (name : String) (s : SceneState) : SceneState :=
  { s with table := (s.table.removeField name).2 }

/-- Adds to a variable, read as a number. -/
def changeVariable (name : String) (amount : Float) (s : SceneState) : SceneState :=
  s.setVariable name (.number ((s.table.getField name).asNumber + amount))

/-- Switches an object. -/
def setEnabled (name : String) (enabled : Bool) (s : SceneState) : SceneState :=
  { s with objects := s.objects.modify name fun _ => enabled }

end SceneState

/-- A world that holds the state of a scene. -/
class SceneHost (σ : Type) where
  /-- The state of the scene. -/
  scene : σ → SceneState
  /-- Changes the state of the scene. -/
  modifyScene : (SceneState → SceneState) → σ → σ
  /-- What the host itself does when an object is switched. -/
  toggled : String → Bool → σ → σ

end BlockScript
