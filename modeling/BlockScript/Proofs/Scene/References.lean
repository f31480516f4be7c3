import BlockScript.Scene.Compile

/-!
# The names that a scene refers to

Every step refers to objects and variables by name: `Step.references` lists these references in reading order. Compiling a step is
resolving its references one after another, and then translating the step into blocks, which cannot fail (`Step.compile_eq`). The
same holds of whole scripts and scenes, so which names a scene may use and what its blocks do can be studied apart.
-/

namespace BlockScript

/-- A name as a step uses it. -/
inductive Reference where
  /-- An object that is switched. -/
  | object (name : String)
  /-- A variable that is written. -/
  | assigned (var : String)
  /-- A variable that a condition reads. -/
  | tested (var : String)
  deriving DecidableEq, Repr

namespace Step

mutual

/-- The references of a step in reading order, the condition of a loop before its body. -/
def references : Step → List Reference
  | wait _ | say _ _ | playSound _ _ | log _ => []
  | enable object | disable object => [.object object]
  | set var _ | change var _ => [.assigned var]
  | waitUntil condition => [.tested condition.var]
  | sequence steps => referencesAll steps
  | repeatForever body => referencesAll body
  | repeatWhile condition body => .tested condition.var :: referencesAll body
  | repeatUntil condition body => .tested condition.var :: referencesAll body
termination_by structural s => s

/-- The references of some steps in reading order. -/
def referencesAll : List Step → List Reference
  | [] => []
  | s :: rest => references s ++ referencesAll rest
termination_by structural ss => ss

end

variable {σ : Type} [SceneHost σ]

mutual

/-- The blocks of a step, whether or not the names in it are known. -/
def translate (actions : ActionsHandle σ) : Step → BuiltIn σ
  | wait seconds => .leaf (.waitFor actions seconds)
  | say message duration => .leaf (.say actions message duration)
  | playSound name volume => .leaf (.playSound actions name volume)
  | log message => .leaf (.log actions message)
  | enable object => .leaf (.perform fun w =>
      SceneHost.toggled object true (SceneHost.modifyScene (·.setEnabled object true) w))
  | disable object => .leaf (.perform fun w =>
      SceneHost.toggled object false (SceneHost.modifyScene (·.setEnabled object false) w))
  | set var value => .leaf (.perform (SceneHost.modifyScene (·.setVariable var value.toValue)))
  | change var amount => .leaf (.perform (SceneHost.modifyScene (·.changeVariable var amount)))
  | waitUntil condition => .leaf (.waitUntil condition.test)
  | sequence steps => .ofList (translateAll actions steps)
  | repeatForever body => .repeating .forever (translateAll actions body)
  | repeatWhile condition body => .repeating (.whileTrue condition.test) (translateAll actions body)
  | repeatUntil condition body => .repeating (.untilTrue condition.test) (translateAll actions body)
termination_by structural s => s

/-- The blocks of some steps. -/
def translateAll (actions : ActionsHandle σ) : List Step → List (BuiltIn σ)
  | [] => []
  | s :: rest => translate actions s :: translateAll actions rest
termination_by structural ss => ss

end

end Step

/-- Refuses a reference to a name that is not there. -/
def Scope.resolve (s : Scope) : Reference → Except SceneError Unit
  | .object name => s.requireObject name
  | .assigned var => s.requireVariable var
  | .tested var => s.requireVariable var

/-! ## Compiling is resolving and then translating -/

namespace Step

variable {σ : Type} [SceneHost σ]

mutual

/-- A step compiles exactly if what it refers to is declared, and then to its translation. -/
theorem compile_eq (actions : ActionsHandle σ) (scope : Scope) : ∀ s : Step,
    compile actions scope s = (do forM s.references scope.resolve; pure (s.translate actions))
  | wait _ | say _ _ | playSound _ _ | log _ => rfl
  | enable _ | disable _ | set _ _ | change _ _ | waitUntil _ => by
    simp [compile, references, translate, Scope.resolve, Scope.compileSwitch, Scope.compileUpdate, Condition.compile]
  | sequence steps => by
    simp [compile, references, translate, compileAll_eq actions scope steps]
  | repeatForever body => by
    simp [compile, references, translate, compileAll_eq actions scope body]
  | repeatWhile c body => by
    simp [compile, references, translate, compileAll_eq actions scope body, Scope.resolve, Condition.compile]
  | repeatUntil c body => by
    simp [compile, references, translate, compileAll_eq actions scope body, Scope.resolve, Condition.compile]

/-- Steps compile exactly if what they refer to is declared, and then to their translations. -/
theorem compileAll_eq (actions : ActionsHandle σ) (scope : Scope) : ∀ steps : List Step,
    compileAll actions scope steps =
      (do forM (referencesAll steps) scope.resolve; pure (translateAll actions steps))
  | [] => rfl
  | s :: rest => by
    simp [compileAll, referencesAll, translateAll, compile_eq actions scope s, compileAll_eq actions scope rest]

end

end Step

/-- The references of a script in reading order. -/
def Script.references (s : Script) : List Reference := Step.referencesAll s.steps

/-- The references of a scene in reading order, each with the name of its script. -/
def Scene.references (s : Scene) : List (String × Reference) :=
  s.scripts.flatMap fun script => script.references.map (script.name, ·)

variable {σ : Type} [SceneHost σ]

/-- The root of a script, whether or not the names in it are known. -/
def Script.translate (actions : ActionsHandle σ) (s : Script) : BuiltIn σ := .ofList (Step.translateAll actions s.steps)

/-- A script compiles exactly if what it refers to is declared, and then to its translation. -/
theorem Script.compile_eq (actions : ActionsHandle σ) (state : SceneState) (s : Script) :
    s.compile actions state =
      (do forM s.references (Scope.resolve { script := s.name, state }); pure (s.translate actions)) := by
  simp [Script.compile, Script.references, Script.translate, Step.compileAll_eq]

/-- A scene compiles exactly if what its scripts refer to is declared, and then to their translations. -/
theorem Scene.compile_eq (actions : ActionsHandle σ) (state : SceneState) (scene : Scene) :
    scene.compile actions state =
      (do forM scene.references (fun x => Scope.resolve { script := x.1, state } x.2)
          pure (scene.scripts.map fun s => (s.name, s.translate actions))) := by
  unfold Scene.compile Scene.references
  induction scene.scripts with
  | nil => rfl
  | cons s rest ih =>
    rw [List.mapM_cons, ih]
    simp [Script.compile_eq]

end BlockScript
