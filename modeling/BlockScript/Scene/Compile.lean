import BlockScript.Block.Primitive
import BlockScript.Scene.Host

/-!
# Compiling scenes

From the steps of a scene to trees of built-in blocks. Every object and every variable that a step names has to be there when
the scene is compiled; the first name in reading order that is not is the error.
-/

namespace BlockScript

variable {σ : Type} [SceneHost σ]

/-- The names that a script may use, and the script that uses them. -/
structure Scope where
  script : String
  state : SceneState

namespace Scope

/-- Refuses an object that is not there. -/
def requireObject (s : Scope) (name : String) : Except SceneError Unit :=
  if s.state.objects.contains name then .ok () else .error (.unknownObject name s.script)

/-- Refuses a variable that is not there. -/
def requireVariable (s : Scope) (name : String) : Except SceneError Unit :=
  if s.state.table.hasField name then .ok () else .error (.unknownVariable name s.script)

end Scope

/-- Whether a condition holds in a state. -/
def Condition.holds (c : Condition) (s : SceneState) : Bool :=
  c.comparison.holds (s.table.getField c.var) c.value.toValue

/-- The test of a condition; it changes nothing. -/
def Condition.test (c : Condition) (w : σ) : Bool × σ := (c.holds (SceneHost.scene w), w)

/-- The test of a condition whose variable is there. -/
def Condition.compile (scope : Scope) (c : Condition) : Except SceneError (σ → Bool × σ) := do
  scope.requireVariable c.var
  pure c.test

/-- A block that switches an object that is there. -/
def Scope.compileSwitch (scope : Scope) (object : String) (enabled : Bool) : Except SceneError (BuiltIn σ) := do
  scope.requireObject object
  pure (.leaf (.perform fun w =>
    SceneHost.toggled object enabled (SceneHost.modifyScene (·.setEnabled object enabled) w)))

/-- A block that changes the state of the scene at a variable that is there. -/
def Scope.compileUpdate (scope : Scope) (var : String) (update : SceneState → SceneState) :
    Except SceneError (BuiltIn σ) := do
  scope.requireVariable var
  pure (.leaf (.perform (SceneHost.modifyScene update)))

namespace Step

mutual

/-- The block of a step. -/
def compile (actions : ActionsHandle σ) (scope : Scope) : Step → Except SceneError (BuiltIn σ)
  | wait seconds => .ok (.leaf (.waitFor actions seconds))
  | say message duration => .ok (.leaf (.say actions message duration))
  | playSound name volume => .ok (.leaf (.playSound actions name volume))
  | log message => .ok (.leaf (.log actions message))
  | enable object => scope.compileSwitch object true
  | disable object => scope.compileSwitch object false
  | set var value => scope.compileUpdate var (·.setVariable var value.toValue)
  | change var amount => scope.compileUpdate var (·.changeVariable var amount)
  | waitUntil condition => do
    let test ← condition.compile scope
    pure (.leaf (.waitUntil test))
  | sequence steps => do
    let blocks ← compileAll actions scope steps
    pure (.ofList blocks)
  | repeatForever body => do
    let blocks ← compileAll actions scope body
    pure (.repeating .forever blocks)
  | repeatWhile condition body => do
    let test ← condition.compile scope
    let blocks ← compileAll actions scope body
    pure (.repeating (.whileTrue test) blocks)
  | repeatUntil condition body => do
    let test ← condition.compile scope
    let blocks ← compileAll actions scope body
    pure (.repeating (.untilTrue test) blocks)
termination_by structural s => s

/-- The blocks of some steps. -/
def compileAll (actions : ActionsHandle σ) (scope : Scope) : List Step → Except SceneError (List (BuiltIn σ))
  | [] => .ok []
  | s :: rest => do
    let block ← compile actions scope s
    let blocks ← compileAll actions scope rest
    pure (block :: blocks)
termination_by structural ss => ss

end

end Step

/-- The root of a script: its steps one after another. -/
def Script.compile (actions : ActionsHandle σ) (state : SceneState) (s : Script) : Except SceneError (BuiltIn σ) := do
  let blocks ← Step.compileAll actions { script := s.name, state } s.steps
  pure (.ofList blocks)

/-- The roots of all scripts of a scene with their names, in order. The names that they use are looked up in a state. -/
def Scene.compile (actions : ActionsHandle σ) (state : SceneState) (scene : Scene) :
    Except SceneError (List (String × BuiltIn σ)) :=
  scene.scripts.mapM fun s => do
    let root ← s.compile actions state
    pure (s.name, root)

end BlockScript
