import BlockScript.Proofs.Scene.Emitted
import BlockScript.Simulation

/-!
# Compiled scenes never meet a runtime error

The only calls of the blocks that the compiler emits that can fail are those that need the provider, and the slot of a simulation
stays filled: no block empties it. The invariant `Simulation.Safe` says that the slot is filled and that every root is made of
leaves that cannot fail while it is. Registering the roots establishes it, every tick keeps it, and with it every tick ends well.
What can go wrong with a scene goes wrong when it is compiled (`compiled_scene_never_fails`).
-/

namespace BlockScript

/-! ## Trees that cannot fail -/

/-- No leaf of the tree can fail in a world with `I`, and nothing that the tree does breaks `I`. -/
def Infallible {σ : Type} (I : σ → Prop) (t : BuiltIn σ) : Prop :=
  Tree.All (Primitive.Keeps I (· = .ok ())) (Tree.TestKeeps I) t

/-- Leaves that cannot fail never do. -/
theorem infallible_upholds {σ : Type} (I : σ → Prop) : Upholds (Infallible I) I (· = .ok ()) :=
  Tree.upholds (Primitive.upholds rfl) rfl fun _ hk => hk

/-- As long as `I` holds, the slot is filled, and nothing that a script can do to its host breaks `I`. -/
structure Steady {σ : Type} [SceneHost σ] (actions : ActionsHandle σ) (I : σ → Prop) : Prop where
  filled : ∀ w, I w → ∃ p, actions.provider? w = some p ∧ (∀ message, I (p.log message w)) ∧
    (∀ message seconds, I (p.say message seconds w)) ∧ (∀ name volume, I (p.playSound name volume w)) ∧ I (p.now w).2
  modifyScene : ∀ f w, I w → I (SceneHost.modifyScene f w)
  toggled : ∀ object enabled w, I w → I (SceneHost.toggled object enabled w)

section

variable {σ : Type} [SceneHost σ] {actions : ActionsHandle σ} {state : SceneState} {I : σ → Prop}

/-- No leaf that the compiler emits can fail on a steady host. -/
theorem Emitted.keeps (h : Steady actions I) {b : Primitive σ} (hb : Emitted actions state b) : b.Keeps I (· = .ok ()) := by
  cases hb with
  | wait seconds =>
    intro w hw
    obtain ⟨p, hp, -, -, -, hnow⟩ := h.filled w hw
    simp only [ActionsHandle.currentTime, hp]
    exact ⟨rfl, hnow⟩
  | say message duration =>
    intro w hw
    obtain ⟨p, hp, -, hsay, -⟩ := h.filled w hw
    simp only [ActionsHandle.act, hp, true_and]
    exact hsay message duration
  | playSound name volume =>
    intro w hw
    obtain ⟨p, hp, -, -, hsound, -⟩ := h.filled w hw
    simp only [ActionsHandle.act, hp, true_and]
    exact hsound name volume
  | log message =>
    intro w hw
    obtain ⟨p, hp, hlog, -⟩ := h.filled w hw
    simp only [ActionsHandle.act, hp, true_and]
    exact hlog message
  | switch _ enabled =>
    intro w hw
    exact ⟨rfl, h.toggled _ enabled _ (h.modifyScene _ w hw)⟩
  | set _ value =>
    intro w hw
    exact ⟨rfl, h.modifyScene _ w hw⟩
  | change _ amount =>
    intro w hw
    exact ⟨rfl, h.modifyScene _ w hw⟩
  | waitUntil _ =>
    intro w hw
    exact hw

/-- A condition only looks at the world. -/
theorem EmittedLoop.testKeeps {k : LoopKind σ} (hk : EmittedLoop state k) : Tree.TestKeeps I k := by
  cases hk <;> exact fun _ hw => hw

/-- The roots of a compiled scene cannot fail on a steady host. -/
theorem Scene.compile_infallible (h : Steady actions I) {scene : Scene} {roots : List (String × BuiltIn σ)}
    (hroots : scene.compile actions state = .ok roots) : ∀ x ∈ roots, Infallible I x.2 := by
  intro x hx
  exact (Scene.compile_emits hroots x hx).mono (fun _ hb => hb.keeps h) fun _ hk => hk.testKeeps

end

/-! ## Simulations -/

/-- The console is installed as provider. -/
def Stage.Ready (s : Stage) : Prop := s.installed = true

/-- Reading the clock leaves the stage as it is. -/
theorem Stage.currentTime_eq (s : Stage) :
    Stage.handle.currentTime s = (if s.installed then .ok s.console.clock.now else .error .actionsNotInitialized, s) := by
  cases h : s.installed <;> simp [ActionsHandle.currentTime, Stage.handle, Console.provider, h]

/-- The handle of a stage keeps it ready, and its clock can be read. -/
theorem Stage.steady : Steady Stage.handle Stage.Ready where
  filled _ hs := ⟨_, if_pos hs, fun _ => hs, fun _ _ => hs, fun _ _ => hs, hs⟩
  modifyScene _ _ hs := hs
  toggled _ _ _ hs := hs

namespace Simulation

/-- The console is installed, and no root can fail as long as it is. -/
structure Safe (s : SceneSimulation) : Prop where
  ready : s.stage.Ready
  roots : ∀ x ∈ s.context.runner.roots, Infallible Stage.Ready x.2

/-- Roots that cannot fail are all registered. -/
theorem register_safe {s : SceneSimulation} (hs : s.Safe) {roots : List (String × BuiltIn Stage)}
    (hroots : ∀ x ∈ roots, Infallible Stage.Ready x.2) : ∃ s', s.register roots = .ok s' ∧ s'.Safe := by
  induction roots generalizing s with
  | nil => exact ⟨s, rfl, hs⟩
  | cons x rest ih =>
    obtain ⟨name, root⟩ := x
    obtain ⟨hroot, hrest⟩ := List.forall_mem_cons.mp hroots
    have hadd := Runner.add_upholds (infallible_upholds _) hs.roots hroot hs.ready
    rcases h : s.context.runner.add root s.stage with ⟨e | id, runner, stage⟩ <;> rw [h] at hadd
    · nomatch hadd.1 e rfl
    · obtain ⟨-, hkept, hready⟩ := hadd
      simp only [register, Context.runBlock, h]
      exact ih ⟨hready, hkept⟩ hrest

/-- Making a simulation either refuses the scene or ends in a safe state. -/
theorem new_safe (scene : Scene) (start : Float) :
    (∃ cause, new scene start = .error (.scene cause)) ∨ ∃ s, new scene start = .ok s ∧ s.Safe := by
  unfold new
  cases hstate : SceneState.ofScene scene with
  | error cause => exact .inl ⟨cause, rfl⟩
  | ok state =>
    cases hroots : scene.compile Stage.handle state with
    | error cause => exact .inl ⟨cause, by simp only [hroots]⟩
    | ok roots =>
      have hempty : Safe
          { context := .new Stage.handle, stage := { console := .new start, scene := state }, scripts := [], start } :=
        ⟨rfl, nofun⟩
      obtain ⟨s, hs, hsafe⟩ := register_safe hempty (Scene.compile_infallible Stage.steady hroots)
      exact .inr ⟨s, by simp only [hroots, hs], hsafe⟩

/-- A tick of a safe simulation succeeds and leaves it safe. -/
theorem tick_safe {s : SceneSimulation} (hs : s.Safe) (delta : Float) : (s.tick delta).1 = .ok () ∧ (s.tick delta).2.Safe := by
  have hready : (s.stage.modifyConsole (·.advance delta)).Ready := hs.ready
  obtain ⟨hok, hkept, hready'⟩ := Runner.advance_upholds (infallible_upholds _) rfl delta hs.roots hready
  exact ⟨hok, hready', hkept⟩

/-- Many ticks of a safe simulation succeed and leave it safe. -/
theorem runTicks_safe {s : SceneSimulation} (hs : s.Safe) (delta : Float) (ran budget : Nat) :
    (∃ n, (runTicks delta ran budget s).1 = .ok n) ∧ (runTicks delta ran budget s).2.Safe := by
  induction budget generalizing s ran with
  | zero => exact ⟨⟨ran, rfl⟩, hs⟩
  | succ budget ih =>
    by_cases hidle : s.context.runner.isIdle = true
    · simp only [runTicks, if_pos hidle]
      exact ⟨⟨ran, rfl⟩, hs⟩
    · obtain ⟨hok, hsafe⟩ := tick_safe hs delta
      have htick : s.tick delta = (.ok (), (s.tick delta).2) := by rw [← hok]
      rw [runTicks, if_neg hidle, htick]
      exact ih hsafe (ran + 1)

/-- A run of a safe simulation succeeds and leaves it safe. -/
theorem run_safe {s : SceneSimulation} (hs : s.Safe) (ticks : Nat) (fps : Float) :
    (∃ summary, (s.run ticks fps).1 = .ok summary) ∧ (s.run ticks fps).2.Safe := by
  obtain ⟨⟨n, hn⟩, hsafe⟩ := runTicks_safe hs (1.0 / fps) 0 ticks
  have hticks : runTicks (1.0 / fps) 0 ticks s = (.ok n, (runTicks (1.0 / fps) 0 ticks s).2) := by rw [← hn]
  rw [run, hticks]
  exact ⟨⟨_, rfl⟩, hsafe⟩

/-- The simulation after a series of runs, each with its number of ticks and its frames per second. -/
def afterRuns (s : SceneSimulation) (calls : List (Nat × Float)) : SceneSimulation :=
  calls.foldl (fun s call => (s.run call.1 call.2).2) s

/-- What every tick keeps, any number of ticks keeps, however they end. -/
theorem runTicks_keeps {P : SceneSimulation → Prop} {delta : Float} (htick : ∀ s, P s → P (s.tick delta).2) {s : SceneSimulation}
    (hs : P s) (ran budget : Nat) : P (runTicks delta ran budget s).2 := by
  induction budget generalizing s ran with
  | zero => exact hs
  | succ budget ih =>
    rw [runTicks]
    split
    · exact hs
    · have hnext := htick s hs
      rcases htickEnd : s.tick delta with ⟨e | ⟨⟩, s'⟩ <;> rw [htickEnd] at hnext
      · exact hnext
      · exact ih hnext (ran + 1)

/-- A run keeps what each of its ticks does. -/
theorem run_keeps {P : SceneSimulation → Prop} {fps : Float} (htick : ∀ s, P s → P (s.tick (1.0 / fps)).2) {s : SceneSimulation}
    (hs : P s) (ticks : Nat) : P (s.run ticks fps).2 := by
  have hlast := runTicks_keeps htick hs 0 ticks
  rw [run]
  rcases hticks : runTicks (1.0 / fps) 0 ticks s with ⟨e | ran, s'⟩ <;> rw [hticks] at hlast <;> exact hlast

/-- Runs keep what every tick does. -/
theorem afterRuns_keeps {P : SceneSimulation → Prop} (htick : ∀ delta s, P s → P (s.tick delta).2) {s : SceneSimulation} (hs : P s)
    (calls : List (Nat × Float)) : P (s.afterRuns calls) := by
  induction calls generalizing s with
  | nil => exact hs
  | cons call rest ih => exact ih (run_keeps (htick _) hs call.1)

/-- Runs leave a simulation safe. -/
theorem afterRuns_safe {s : SceneSimulation} (hs : s.Safe) (calls : List (Nat × Float)) : (s.afterRuns calls).Safe :=
  afterRuns_keeps (P := Safe) (fun delta _ hs => (tick_safe hs delta).2) hs calls

/-- A compiled scene never meets a runtime error: making a simulation of a scene never ends in one, and after any runs of a
simulation that was made, the next run ends well. So whoever plays a scene is told an error exactly if the scene was refused,
which is before anything is written. -/
theorem compiled_scene_never_fails (scene : Scene) (start : Float) :
    (∀ e, new scene start ≠ .error (.runtime e)) ∧
    (∀ s, new scene start = .ok s → ∀ calls ticks fps, ∃ summary, ((s.afterRuns calls).run ticks fps).1 = .ok summary) ∧
    ∀ ticks fps lines e, play scene start ticks fps = .error (lines, e) ↔
      lines = [] ∧ ∃ cause, e = .scene cause ∧ new scene start = .error (.scene cause) := by
  rcases new_safe scene start with ⟨cause, hnew⟩ | ⟨s, hnew, hsafe⟩
  · refine ⟨by simp [hnew], by simp [hnew], ?_⟩
    intro ticks fps lines e
    simp only [play, hnew, Except.error.injEq, Prod.mk.injEq, SimulationError.scene.injEq]
    constructor
    · rintro ⟨rfl, rfl⟩
      exact ⟨rfl, cause, rfl, rfl⟩
    · rintro ⟨rfl, _, rfl, rfl⟩
      exact ⟨rfl, rfl⟩
  · refine ⟨by simp [hnew], ?_, ?_⟩
    · intro s' hs' calls ticks fps
      obtain rfl : s = s' := by simpa [hnew] using hs'
      exact (run_safe (afterRuns_safe hsafe calls) ticks fps).1
    · intro ticks fps lines e
      obtain ⟨summary, hrun⟩ := (run_safe hsafe ticks fps).1
      have hr : s.run ticks fps = (.ok summary, (s.run ticks fps).2) := by rw [← hrun]
      simp only [play, hnew]
      rw [hr]
      simp

/-- A scene that greets forever, with a pause after each greeting. -/
def greetings : Scene :=
  { scripts := [{ name := "greet", steps := [.repeatForever [.say "hello" 1.0, .wait 0.5]] }] }

/-- A scene with a greeting in a loop. -/
theorem compiled_scene_never_fails_greetings : ∃ s, new greetings 0.0 = .ok s ∧
    ∀ calls ticks fps, ∃ summary, ((s.afterRuns calls).run ticks fps).1 = .ok summary :=
  ⟨_, rfl, (compiled_scene_never_fails greetings 0.0).2.1 _ rfl⟩

end Simulation

end BlockScript
