import BlockScript.CommandLine.Execute
import BlockScript.Proofs.Runner.Registry
import BlockScript.Proofs.Simulation.Opening

/-!
# Loading a scene

A scene that is accepted is loaded without doing anything: every script is entered and registered, but entering only descends to a first
leaf, sets waits and asks tests, so nothing is written, assigned or retired (`eq_begun_of_new`, `loading_performs_nothing`). A script
that has nothing to do is registered like any other, and the command that checks a scene counts it.
-/

namespace BlockScript.Simulation

variable {scene : Scene} {start : Float} {s : SceneSimulation}

/-- A simulation in which a scene was loaded and nothing has happened yet. -/
structure Loaded (scene : Scene) (start : Float) (s : SceneSimulation) : Prop where
  transcript : s.transcript = []
  now : s.stage.console.clock.now = start
  /-- The variables are those that the scene declares. -/
  table : s.stage.scene.table = scene.initialVariables
  values : ∀ name literal, scene.initial.get? name = some literal → s.stage.scene.table.getField name = literal.toValue
  objects : SceneState.ofScene scene = .ok s.stage.scene
  scripts : s.scripts = (scene.scripts.map (·.name)).zipIdx
  /-- Every script has its root, as it is when it was entered. -/
  roots : s.context.runner.roots =
    scene.scripts.zipIdx.map fun x => (x.2, ((x.1.translate Stage.handle).enter s.stage).2.1)
  registered : ∀ x ∈ s.scripts, s.context.runner.contains x.2 = true
  running : s.runningScripts = scene.scripts.map (·.name)

/-- The variables of a scene read as they are declared. -/
theorem getField_initialVariables {name : String} {literal : Literal} (h : scene.initial.get? name = some literal) :
    scene.initialVariables.getField name = literal.toValue := by
  simp [Table.getField, Dictionary.getD, Scene.initialVariables, Dictionary.get?_mapValues, h]

/-- What is registered is what is recorded. -/
theorem ids_begun (scene : Scene) (state : SceneState) (start : Float) :
    (begun scene state start).context.runner.ids = List.range' 0 scene.scripts.length ∧
      (begun scene state start).scripts.map (·.2) = List.range' 0 scene.scripts.length := by
  constructor
  · simp only [begun, Runner.ids, List.map_map]
    exact List.zipIdx_map_snd 0 scene.scripts
  · rw [begun, List.zipIdx_map_snd, List.length_map]

theorem loaded (h : new scene start = .ok s) : Loaded scene start s := by
  obtain ⟨state, hstate, rfl, -⟩ := eq_begun_of_new h
  have htable : state.table = scene.initialVariables := by
    obtain ⟨state', hstate', htable, -⟩ := SceneState.ofScene_ok (names_in_order h).1
    obtain rfl : state = state' := by simpa [hstate] using hstate'
    exact htable
  obtain ⟨hids, hrecorded⟩ := ids_begun scene state start
  have hregistered : ∀ x ∈ (begun scene state start).scripts, (begun scene state start).context.runner.contains x.2 = true := by
    intro x hx
    rw [Runner.contains_iff_mem, hids, ← hrecorded]
    exact List.mem_map_of_mem hx
  refine ⟨rfl, rfl, htable, fun name literal hname => ?_, hstate, rfl, rfl, hregistered, ?_⟩
  · exact (congrArg (Table.getField · name) htable).trans (getField_initialVariables hname)
  · rw [runningScripts, List.filter_eq_self.mpr hregistered]
    exact List.zipIdx_map_fst 0 _

/-- The line with which the check of a scene ends well. -/
def checkedLine (path : String) (count : Nat) : String :=
  "ok: " ++ path ++ " compiled (" ++ toString count ++ " script" ++ (if count = 1 then "" else "s") ++ ")\n"

/-- A scene that is accepted is accepted whenever it starts. -/
theorem new_ok_at (h : new scene start = .ok s) (start' : Float) : ∃ s', new scene start' = .ok s' := by
  obtain ⟨hdistinct, hdeclared⟩ := names_in_order h
  obtain ⟨built, hbuild⟩ : ∃ built, scene.build Stage.handle = .ok built := Scene.build_ok hdistinct hdeclared
  exact new_ok_of_build hbuild start'

/-- Loading a scene performs nothing. Right after a scene was accepted nothing is written, the clock stands where it was set, every
variable has its declared initial value and every object is as it was declared; and every script is registered as it is when it was
entered, those with nothing to do among them, so that the scripts listed as running are all scripts of the scene in order of declaration.
The check of a file that reads as the scene counts them all. -/
theorem loading_performs_nothing (h : new scene start = .ok s) :
    Loaded scene start s ∧ ∀ colour path source, Scene.parse source 0 = .ok scene →
      CommandLine.check colour path (.ok source) = { stderr := checkedLine path scene.scripts.length } := by
  refine ⟨loaded h, fun colour path source hparse => ?_⟩
  obtain ⟨s', hs'⟩ := new_ok_at h 0.0
  have hcount : s'.finish.running.length = scene.scripts.length := by rw [finish, (loaded hs').running, List.length_map]
  simp only [CommandLine.check, CommandLine.withScene, hparse, hs', hcount]
  rfl

/-- A scene with a script without steps and one whose loop is over before it begins. -/
def overBefore : String :=
  "[variables]\nlaps = 3\n\n[[scripts]]\nname = \"idle\"\nblocks = []\n\n[[scripts]]\nname = \"race\"\n" ++
  "blocks = [\x7b repeat_until = \x7b condition = \x7b var = \"laps\", op = \">=\", value = 3 \x7d, " ++
  "blocks = [\x7b change = \x7b var = \"laps\", by = 1 \x7d \x7d] \x7d \x7d]\n"

/-- A scene with two scripts that is checked by the command line. -/
theorem loading_performs_nothing_over : ∃ scene s, Scene.parse overBefore 0 = .ok scene ∧ new scene 0.0 = .ok s ∧
    Loaded scene 0.0 s ∧ s.runningScripts = ["idle", "race"] ∧
    CommandLine.check false "race.toml" (.ok overBefore) = { stderr := "ok: race.toml compiled (2 scripts)\n" } := by
  have hread : ((Scene.parse overBefore 0).toOption.any fun scene => scene.scripts.map (·.name) = ["idle", "race"] ∧
      scene.objectNames.Nodup ∧ ∀ x ∈ scene.references, scene.Declares x.2) = true := by decide +kernel
  cases hparse : Scene.parse overBefore 0 with
  | error e =>
    rw [hparse] at hread
    nomatch hread
  | ok scene =>
    obtain ⟨hnames, hdistinct, hdeclared⟩ : scene.scripts.map (·.name) = ["idle", "race"] ∧ scene.objectNames.Nodup ∧
        ∀ x ∈ scene.references, scene.Declares x.2 := by
      rw [hparse] at hread
      exact of_decide_eq_true hread
    obtain ⟨built, hbuild⟩ : ∃ built, scene.build Stage.handle = .ok built := Scene.build_ok hdistinct hdeclared
    obtain ⟨s, hs⟩ := new_ok_of_build hbuild 0.0
    obtain ⟨hloaded, hcheck⟩ := loading_performs_nothing hs
    have hcount : scene.scripts.length = 2 := by rw [← List.length_map, hnames]; rfl
    refine ⟨scene, s, rfl, hs, hloaded, hloaded.running.trans hnames, ?_⟩
    rw [hcheck false "race.toml" overBefore hparse, hcount]
    rfl

end BlockScript.Simulation
