import BlockScript.Proofs.Block.Quiet
import BlockScript.Proofs.Scene.Resolution
import Mathlib.Logic.Function.Iterate

/-!
# How a simulation begins and goes on

A scene that is accepted begins on the stage it declares, and entering its scripts changes nothing there, so every root is entered on
that same stage (`opening`). From then on a run makes one step over and over, which is a tick, or nothing once no script is left
(`run_eq_iterate`).
-/

namespace BlockScript

/-- The stage of a scene before its first tick. -/
def Stage.initial (state : SceneState) (start : Float) : Stage := { console := .new start, scene := state }

/-- The initial stage is ready. -/
theorem Stage.ready_initial (state : SceneState) (start : Float) : (Stage.initial state start).Ready := rfl

section

variable {state : SceneState}

/-- Entering an emitted leaf leaves the stage as it is. -/
theorem Emitted.enter_world {b : Primitive Stage} (hb : Emitted Stage.handle state b) (s : Stage) : (b.enter s).2.2 = s := by
  cases hb with
  | wait seconds =>
    have hread : (Stage.handle.currentTime s).2 = s := by rw [s.currentTime_eq]
    simp only [Primitive.waitFor, Primitive.enter]
    rcases hr : Stage.handle.currentTime s with ⟨e | t, s'⟩
    · rwa [hr] at hread
    · rwa [hr] at hread
  | say | playSound | log | switch | set | change | waitUntil => rfl

/-- The test of an emitted loop leaves the stage as it is. -/
theorem EmittedLoop.test_world {k : LoopKind Stage} (hk : EmittedLoop state k) (s : Stage) : (k.shouldExit s).2 = s := by
  cases hk <;> rfl

/-- Entering a compiled tree succeeds wherever the console is installed, and changes nothing there. -/
theorem enter_emitted {t : BuiltIn Stage} (ht : Tree.All (Emitted Stage.handle state) (EmittedLoop state) t) {s : Stage}
    (hs : s.Ready) : (t.enter s).1 = .ok () ∧ (t.enter s).2.2 = s := by
  have hinfallible : Infallible Stage.Ready t := ht.mono (fun _ hb => hb.keeps Stage.steady) fun _ hk => hk.testKeeps
  exact ⟨((infallible_upholds Stage.Ready).enter t s hinfallible hs).1,
    Tree.enter_world (ht.mono (fun _ hb => hb.enter_world) fun _ hk => hk.test_world) s⟩

end

/-- Where a scene compiles, its scripts translate to what the compiler emits. -/
theorem Scene.translate_emits {σ : Type} [SceneHost σ] {actions : ActionsHandle σ} {state : SceneState} {scene : Scene}
    {roots : List (String × BuiltIn σ)} (h : scene.compile actions state = .ok roots) :
    roots = scene.scripts.map (fun s => (s.name, s.translate actions)) ∧
      ∀ s ∈ scene.scripts, Tree.All (Emitted actions state) (EmittedLoop state) (s.translate actions) := by
  have hroots : roots = scene.scripts.map fun s => (s.name, s.translate actions) := by
    rw [Scene.compile_eq] at h
    obtain ⟨-, -, h⟩ := bind_eq_ok.mp h
    cases h
    rfl
  refine ⟨hroots, fun s hs => ?_⟩
  exact Scene.compile_emits h (s.name, s.translate actions) (hroots ▸ List.mem_map.mpr ⟨s, hs, rfl⟩)

namespace Simulation

/-- Registering roots that can all be entered on the stage without changing it: each is registered as it is when it was entered, and its
id is recorded with its name. -/
theorem register_eq {s : SceneSimulation} {roots : List (String × BuiltIn Stage)}
    (hroots : ∀ x ∈ roots, (x.2.enter s.stage).1 = .ok () ∧ (x.2.enter s.stage).2.2 = s.stage) :
    s.register roots = .ok { s with
      context := { s.context with runner :=
        ⟨s.context.runner.roots ++ (roots.zipIdx s.context.runner.nextId).map fun x => (x.2, (x.1.2.enter s.stage).2.1),
          s.context.runner.nextId + roots.length⟩ }
      scripts := s.scripts ++ (roots.map (·.1)).zipIdx s.context.runner.nextId } := by
  induction roots generalizing s with
  | nil => simp [register]
  | cons x rest ih =>
    obtain ⟨name, root⟩ := x
    obtain ⟨⟨hok, hstage⟩, hrest⟩ := List.forall_mem_cons.mp hroots
    let registered : SceneSimulation :=
      { s with
        context := { s.context with runner :=
          ⟨s.context.runner.roots ++ [(s.context.runner.nextId, (root.enter s.stage).2.1)], s.context.runner.nextId + 1⟩ }
        scripts := s.scripts ++ [(name, s.context.runner.nextId)] }
    have henter : root.enter s.stage = (.ok (), (root.enter s.stage).2.1, s.stage) := Prod.ext hok (Prod.ext rfl hstage)
    have hregister : s.register ((name, root) :: rest) = registered.register rest := by
      simp only [register, Context.runBlock, BuiltIn.add_eq henter]
      rfl
    rw [hregister, ih (s := registered) hrest]
    simp [registered, Nat.add_assoc, Nat.add_comm 1]

/-- A scene that was accepted, before its first tick: its declared state on a stage without lines, and under each next id the root of a
script as it is when it was entered there. -/
def begun (scene : Scene) (state : SceneState) (start : Float) : SceneSimulation where
  context :=
    { actions := Stage.handle
      runner :=
        ⟨scene.scripts.zipIdx.map fun x => (x.2, ((x.1.translate Stage.handle).enter (.initial state start)).2.1),
          scene.scripts.length⟩ }
  stage := .initial state start
  scripts := (scene.scripts.map (·.name)).zipIdx
  start := start

/-- A new simulation has begun its scene, with the translated scripts. -/
theorem eq_begun_of_new {scene : Scene} {start : Float} {s : SceneSimulation} (h : new scene start = .ok s) :
    ∃ state, SceneState.ofScene scene = .ok state ∧ s = begun scene state start ∧ ∀ script ∈ scene.scripts,
      Tree.All (Emitted Stage.handle state) (EmittedLoop state) (script.translate Stage.handle) := by
  rw [new_eq] at h
  cases hbuild : scene.build Stage.handle with
  | error e => rw [hbuild] at h; nomatch h
  | ok built =>
    obtain ⟨state, hstate, hcompile⟩ := bind_eq_ok.mp hbuild
    obtain ⟨roots, hroots, hbuilt⟩ := bind_eq_ok.mp hcompile
    cases hbuilt
    obtain ⟨rfl, hemitted⟩ := Scene.translate_emits hroots
    have henter : ∀ x ∈ scene.scripts.map fun script => (script.name, script.translate Stage.handle),
        (x.2.enter (blank state start).stage).1 = .ok () ∧ (x.2.enter (blank state start).stage).2.2 = (blank state start).stage :=
      List.forall_mem_map.mpr fun script hs => enter_emitted (hemitted script hs) (Stage.ready_initial state start)
    simp only [hbuild, register_eq henter] at h
    cases h
    refine ⟨state, hstate, ?_, hemitted⟩
    have hempty : (∅ : Runner (BuiltIn Stage)) = ⟨[], 0⟩ := rfl
    simp [blank, begun, Stage.initial, Context.new, hempty, List.zipIdx_map]

/-- What a scene that was accepted begins as: its declared state on a stage without lines, and the root of every script as it is
when it was entered there. -/
structure Opening (scene : Scene) (start : Float) (state : SceneState) (s : SceneSimulation) : Prop where
  declared : SceneState.ofScene scene = .ok state
  stage : s.stage = .initial state start
  roots : s.context.runner.roots.map (·.2) =
    scene.scripts.map fun script => ((script.translate Stage.handle).enter (.initial state start)).2.1
  emitted : ∀ script ∈ scene.scripts,
    Tree.All (Emitted Stage.handle state) (EmittedLoop state) (script.translate Stage.handle)

theorem opening {scene : Scene} {start : Float} {s : SceneSimulation} (h : new scene start = .ok s) :
    ∃ state, Opening scene start state s := by
  obtain ⟨state, hstate, rfl, hemitted⟩ := eq_begun_of_new h
  refine ⟨state, hstate, rfl, ?_, hemitted⟩
  have hscripts : scene.scripts.zipIdx.map (·.1) = scene.scripts := List.zipIdx_map_fst 0 scene.scripts
  conv_rhs => rw [← hscripts]
  simp only [begun, List.map_map]
  rfl

/-- A scene that was accepted has its names in order. -/
theorem names_in_order {scene : Scene} {start : Float} {s : SceneSimulation} (h : new scene start = .ok s) :
    scene.objectNames.Nodup ∧ ∀ x ∈ scene.references, scene.Declares x.2 := by
  refine scene.firstFault_or.resolve_left ?_
  rintro ⟨cause, hfault⟩
  rw [new_error_of_build hfault.build_error] at h
  nomatch h

/-! ## One step after another -/

/-- A tick, or nothing once no root is left. -/
def step (delta : Float) (s : SceneSimulation) : SceneSimulation := if s.context.runner.isIdle then s else (s.tick delta).2

/-- Without roots a step does nothing. -/
theorem step_idle {s : SceneSimulation} (h : s.context.runner.isIdle = true) (delta : Float) : s.step delta = s := if_pos h

/-- A step leaves a safe simulation safe. -/
theorem step_safe {s : SceneSimulation} (hs : s.Safe) (delta : Float) : (s.step delta).Safe := by
  unfold step
  split
  · exact hs
  · exact (tick_safe hs delta).2

/-- Ticks of a safe simulation are its steps, one after another. -/
theorem runTicks_eq_iterate {s : SceneSimulation} (hs : s.Safe) (delta : Float) (ran ticks : Nat) :
    (runTicks delta ran ticks s).2 = (step delta)^[ticks] s := by
  induction ticks generalizing s ran with
  | zero => rfl
  | succ ticks ih =>
    rw [Function.iterate_succ_apply]
    by_cases hidle : s.context.runner.isIdle = true
    · rw [runTicks, if_pos hidle, step_idle hidle, Function.iterate_fixed (step_idle hidle delta)]
    · obtain ⟨hok, hsafe⟩ := tick_safe hs delta
      have htick : s.tick delta = (.ok (), (s.tick delta).2) := by rw [← hok]
      rw [runTicks, if_neg hidle, htick, step, if_neg hidle]
      exact ih hsafe (ran + 1)

/-- A run makes one step over and over. -/
theorem run_eq_iterate {s : SceneSimulation} (hs : s.Safe) (ticks : Nat) (fps : Float) :
    (s.run ticks fps).2 = (step (1.0 / fps))^[ticks] s := by
  obtain ⟨⟨n, hn⟩, -⟩ := runTicks_safe hs (1.0 / fps) 0 ticks
  have hticks : runTicks (1.0 / fps) 0 ticks s = (.ok n, (step (1.0 / fps))^[ticks] s) := by
    rw [← hn, ← runTicks_eq_iterate hs]
  rw [run, hticks]

/-- A run that is one tick longer makes one step more. -/
theorem run_succ {s : SceneSimulation} (hs : s.Safe) (ticks : Nat) (fps : Float) :
    (s.run (ticks + 1) fps).2 = (s.run ticks fps).2.step (1.0 / fps) := by
  rw [run_eq_iterate hs, run_eq_iterate hs, Function.iterate_succ_apply']

end Simulation

end BlockScript
