import BlockScript.Proofs.Simulation.Bookkeeping
import BlockScript.Scenario.Verdict

/-!
# Playing a source

Whoever plays the source of a scene meets one of two ends. Either no simulation is made of it, because it does not read as a scene or
because there is a fault in the names of the scene (`Refused`); or a simulation is made of it and run to its end (`Played`). There is
nothing in between, since a compiled scene never fails (`refused_or_played`). The command that runs a scene and the judgement on a
scenario are given here by these two ends.
-/

namespace BlockScript

namespace Simulation

/-- Why no simulation is made of a source: it does not read as a scene, or the scene has a fault in its names. -/
inductive Refused (source : String) : SceneError → Prop where
  | unread {e : SceneError} : Scene.parse source 0 = .error e → Refused source e
  | faulty {scene : Scene} {e : SceneError} : Scene.parse source 0 = .ok scene → scene.FirstFault e → Refused source e

/-- A source was played: a simulation was made of it and run with some settings, which ended with a summary and a last state. -/
inductive Played (source : String) (start : Float) (ticks : Nat) (fps : Float) : Summary → SceneSimulation → Prop where
  | of_run {scene : Scene} {loaded s : SceneSimulation} {summary : Summary} : Scene.parse source 0 = .ok scene →
      new scene start = .ok loaded → loaded.run ticks fps = (.ok summary, s) → Played source start ticks fps summary s

section

variable {source : String} {start fps : Float} {ticks : Nat} {summary : Summary} {s : SceneSimulation} {e : SceneError}

/-- A source is refused or played. -/
theorem refused_or_played (source : String) (start : Float) (ticks : Nat) (fps : Float) :
    (∃ e, Refused source e) ∨ ∃ summary s, Played source start ticks fps summary s := by
  cases hparse : Scene.parse source 0 with
  | error e => exact .inl ⟨e, .unread hparse⟩
  | ok scene =>
    rcases scene.firstFault_or with ⟨e, hfault⟩ | ⟨hdistinct, hdeclared⟩
    · exact .inl ⟨e, .faulty hparse hfault⟩
    · obtain ⟨built, hbuild⟩ : ∃ built, scene.build Stage.handle = .ok built := Scene.build_ok hdistinct hdeclared
      obtain ⟨loaded, hnew⟩ := new_ok_of_build hbuild start
      obtain ⟨⟨summary, hrun⟩, -⟩ := run_safe (safe_of_new hnew) ticks fps
      exact .inr ⟨summary, (loaded.run ticks fps).2, .of_run hparse hnew (Prod.ext hrun rfl)⟩

/-- A refused source does not read, or whoever plays its scene is told of the fault before any line is written. -/
theorem Refused.told (h : Refused source e) : Scene.parse source 0 = .error e ∨
    ∃ scene, Scene.parse source 0 = .ok scene ∧ ∀ start ticks fps, play scene start ticks fps = .error ([], .scene e) := by
  cases h with
  | unread hparse => exact .inl hparse
  | @faulty scene _ hparse hfault =>
    refine .inr ⟨scene, hparse, fun start ticks fps => ?_⟩
    rw [play, new_error_of_build hfault.build_error start]

/-- A scene that was played was parsed and played. -/
theorem Played.told (h : Played source start ticks fps summary s) :
    ∃ scene, Scene.parse source 0 = .ok scene ∧ play scene start ticks fps = .ok (summary, s) := by
  obtain ⟨hparse, hnew, hrun⟩ := h
  exact ⟨_, hparse, by simp only [play, hnew, hrun]⟩

/-- What was played gives an account of itself: the scripts that are left are those listed as running, and there are none if the run
ended early. -/
theorem Played.account (h : Played source start ticks fps summary s) :
    summary.active = s.runningScripts.length ∧ summary.ticks ≤ ticks ∧ (summary.ticks < ticks → s.runningScripts = []) := by
  obtain ⟨hparse, hnew, hrun⟩ := h
  obtain ⟨summary', haccount⟩ := exists_runAccount hnew [] ticks fps
  have hanswer := haccount.answer
  have hactive := haccount.active
  rw [afterRuns, List.foldl_nil, hrun] at hanswer hactive
  cases hanswer
  refine ⟨hactive, haccount.within, fun hearly => ?_⟩
  rw [← List.length_eq_zero_iff, ← hactive]
  exact haccount.early hearly

/-- Nothing is written while a scene that was played is shut down. -/
theorem Played.added_eq_nil (h : Played source start ticks fps summary s) : s.finish.added = [] := by
  obtain ⟨hparse, hnew, hrun⟩ := h
  have hstage := shutdown_afterRuns hnew [(ticks, fps)]
  rw [afterRuns, List.foldl_cons, List.foldl_nil, hrun] at hstage
  have hlines := congrArg (fun stage : Stage => stage.console.lines.toList) hstage
  have hsame : s.finish.closed.transcript = s.transcript := hlines
  rw [Ending.added, hsame]
  exact List.drop_length

/-- What playing a source comes to can be computed. -/
theorem exists_played {P : Summary → SceneSimulation → Prop} [∀ summary s, Decidable (P summary s)]
    (h : ((Scene.parse source 0).toOption.any fun scene =>
      (play scene start ticks fps).toOption.any fun ended => P ended.1 ended.2) = true) :
    ∃ summary s, Played source start ticks fps summary s ∧ P summary s := by
  rcases refused_or_played source start ticks fps with ⟨e, hrefused⟩ | ⟨summary, s, hplayed⟩
  · rcases hrefused.told with hparse | ⟨scene, hparse, hplay⟩
    · simp [hparse, Except.toOption] at h
    · simp [hparse, hplay, Except.toOption] at h
  · obtain ⟨scene, hparse, hplay⟩ := hplayed.told
    simp only [hparse, hplay, Except.toOption, Option.any_some] at h
    exact ⟨summary, s, hplayed, of_decide_eq_true h⟩

/-- Whether a source is refused can be computed. -/
theorem exists_refused (h : ((Scene.parse source 0).toOption.all fun scene => (new scene 0.0).toOption.isNone) = true) :
    ∃ e, Refused source e := by
  refine (refused_or_played source 0.0 0 30.0).resolve_right ?_
  rintro ⟨_, _, ⟨hparse, hnew, -⟩⟩
  simp [hparse, hnew, Except.toOption] at h

end

end Simulation

/-! ## What is made of either end -/

namespace CommandLine

open Simulation

variable {source : String} {colour : Bool} {o : RunOptions} {summary : Summary} {s : SceneSimulation} {e : SceneError}

/-- The answer to a number of frames per second that is refused. -/
def fpsRefusal (fps : Float) : Output :=
  { exit := 2, stderr := "error: --fps must be positive, got " ++ Decimal.plainText fps ++ "\n" }

/-- The answer about a scene that was played. -/
def playedOutput (o : RunOptions) (summary : Summary) (s : SceneSimulation) : Output where
  stdout := (if o.quiet then "" else printed s.transcript) ++
    printed (if o.showVariables then s.variableTexts.map fun (name, v) => name ++ " = " ++ v else [])
  stderr := closingLine summary s.runningScripts ++ "\n"

/-- Where nothing is written there is nothing to show. -/
theorem echoed_nil (echo : Bool) : echoed echo [] = "" := by cases echo <;> rfl

/-- The command line refuses a rate of frames before it looks at the source. -/
theorem run_of_refusesFps (h : refusesFps o.fps = true) (source : Except ReadError String) :
    run colour o source = fpsRefusal o.fps := by
  rw [run, if_pos h]
  rfl

/-- The command line reports why a scene cannot be played. -/
theorem run_of_refused (hfps : refusesFps o.fps = false) (h : Refused source e) :
    run colour o (.ok source) = { exit := 1, stderr := Reporter.sceneError ⟨colour, o.scene, source⟩ e } := by
  rw [run, if_neg (Bool.eq_false_iff.mp hfps)]
  rcases h.told with hparse | ⟨scene, hparse, hplay⟩
  · simp only [withScene, hparse]
  · simp [withScene, hparse, hplay, Reporter.error, echoed_nil]

/-- The command line prints the transcript of a scene that was played, and how that ended. -/
theorem run_of_played (hfps : refusesFps o.fps = false) (h : Played source o.start o.ticks o.fps summary s) :
    run colour o (.ok source) = playedOutput o summary s := by
  obtain ⟨scene, hparse, hplay⟩ := h.told
  rw [run, if_neg (Bool.eq_false_iff.mp hfps)]
  simp only [withScene, hparse, hplay, h.added_eq_nil, echoed_nil, String.append_empty, playedOutput]
  cases o.quiet <;> rfl

end CommandLine

namespace Expectation

open Simulation

variable {source : String} {x : Expectation} {summary : Summary} {s : SceneSimulation} {e : SceneError}

/-- The judge looks at the message where a scene cannot be played. -/
theorem judge_of_refused (h : Refused source e) : x.judge source = x.judgeError [] e.message := by
  rcases h.told with hparse | ⟨scene, hparse, hplay⟩
  · simp only [judge, hparse]
  · simp only [judge, hparse, hplay]
    rfl

/-- The judge looks at the transcript and the scripts still running where a scene was played. -/
theorem judge_of_played (h : Played source x.start x.ticks x.fps summary s) :
    x.judge source = x.judgeRun s.transcript summary.active := by
  obtain ⟨scene, hparse, hplay⟩ := h.told
  simp only [judge, hparse, hplay]
  rfl

end Expectation

end BlockScript
