import BlockScript.Proofs.Scenario.Judging

/-!
# One scene, two hosts

The command that runs a scene and the judgement on a scenario play the same source in the same way. They differ before that: the command
refuses a number of frames per second that is not positive, and the judgement takes any (`hosts_agree`).
-/

namespace BlockScript

open Simulation

namespace CommandLine

/-! ## Positive numbers -/

theorem float_le_iff (a b : Float) : a ≤ b ↔ a.toModel.unpack.le b.toModel.unpack = true := decide_eq_true_iff

theorem float_lt_iff (a b : Float) : a < b ↔ a.toModel.unpack.lt b.toModel.unpack = true := decide_eq_true_iff

/-- What is not refused is what is positive: to be no number is one of the two ways not to be. -/
theorem refusesFps_eq_false_iff (fps : Float) : refusesFps fps = false ↔ 0.0 < fps := by
  rw [refusesFps, Bool.or_eq_false_iff, decide_eq_false_iff_not, float_le_iff, float_lt_iff]
  have hzero : (0.0 : Float).toModel.unpack = .zero .positive := rfl
  change fps.toModel.unpack.isNaN = false ∧ _ ↔ _
  rw [hzero]
  cases fps.toModel.unpack with
  | notANumber => decide
  | infinity sign => cases sign <;> decide
  | zero sign => cases sign <;> decide
  | finite sign mantissa exponent h =>
    cases sign with
    | positive => exact ⟨fun _ => rfl, fun _ => ⟨rfl, Bool.false_ne_true⟩⟩
    | negative => exact ⟨fun h => absurd rfl h.2, fun h => absurd h Bool.false_ne_true⟩

/-- The command refuses the settings exactly if the frames per second are not positive, whatever the source is. -/
theorem run_eq_fpsRefusal_iff (colour : Bool) (o : RunOptions) (source : String) :
    run colour o (.ok source) = fpsRefusal o.fps ↔ ¬0.0 < o.fps := by
  rw [← refusesFps_eq_false_iff, Bool.not_eq_false]
  constructor
  · intro hrun
    by_contra hrefuses
    have hfps : refusesFps o.fps = false := Bool.eq_false_iff.mpr hrefuses
    rcases refused_or_played source o.start o.ticks o.fps with ⟨e, hrefused⟩ | ⟨summary, s, hplayed⟩
    · have hexit := congrArg Output.exit ((run_of_refused hfps hrefused).symm.trans hrun)
      exact absurd hexit (by decide : 1 ≠ 2)
    · have hexit := congrArg Output.exit ((run_of_played hfps hplayed).symm.trans hrun)
      exact absurd hexit (by decide : 0 ≠ 2)
  · exact fun hrefuses => run_of_refusesFps hrefuses (.ok source)

/-! ## The same settings -/

/-- The settings of a run with the ticks, the frames per second and the start of an expectation. -/
def RunOptions.playing (o : RunOptions) (x : Expectation) : RunOptions :=
  { o with ticks := x.ticks, fps := x.fps, start := x.start }

/-- What either host makes of a source that is refused. -/
structure BothRefuse (source : String) (x : Expectation) (o : RunOptions) (colour : Bool) (e : SceneError) : Prop where
  refused : Refused source e
  judged : x.judge source = x.judgeError [] e.message
  run : 0.0 < x.fps → run colour (o.playing x) (.ok source) =
    { exit := 1, stderr := Reporter.sceneError ⟨colour, o.scene, source⟩ e }

/-- What either host makes of a source that is played: both see the same transcript, the same count of ticks and the same scripts. -/
structure BothPlay (source : String) (x : Expectation) (o : RunOptions) (colour : Bool) (summary : Summary) (s : SceneSimulation) :
    Prop where
  played : Played source x.start x.ticks x.fps summary s
  active : summary.active = s.runningScripts.length
  judged : x.judge source = x.judgeRun s.transcript summary.active
  run : 0.0 < x.fps → run colour (o.playing x) (.ok source) = playedOutput o summary s

/-- Where the two hosts agree. Given the same source, ticks, frames per second and start, the command refuses the settings if and only
if the frames per second are not positive, whatever the source is. The judgement refuses no settings. Otherwise both do the same: either
they meet the same error of the scene, or they play it to the same end. -/
theorem hosts_agree (source : String) (x : Expectation) (o : RunOptions) (colour : Bool) :
    (run colour (o.playing x) (.ok source) = fpsRefusal x.fps ↔ ¬0.0 < x.fps) ∧
      ((∃ e, BothRefuse source x o colour e) ∨ ∃ summary s, BothPlay source x o colour summary s) := by
  refine ⟨run_eq_fpsRefusal_iff colour (o.playing x) source, ?_⟩
  rcases refused_or_played source x.start x.ticks x.fps with ⟨e, hrefused⟩ | ⟨summary, s, hplayed⟩
  · refine .inl ⟨e, hrefused, Expectation.judge_of_refused hrefused, fun hpositive => ?_⟩
    exact run_of_refused (o := o.playing x) ((refusesFps_eq_false_iff x.fps).mpr hpositive) hrefused
  · refine .inr ⟨summary, s, hplayed, hplayed.account.1, Expectation.judge_of_played hplayed, fun hpositive => ?_⟩
    exact run_of_played (o := o.playing x) ((refusesFps_eq_false_iff x.fps).mpr hpositive) hplayed

/-- A scenario with a script that waits for half a second, played at a negative number of frames per second. -/
def rest : String :=
  "[[scripts]]\nname = \"rest\"\nblocks = [\x7b wait = 0.5 \x7d]\n\n[expect]\nfps = -4\nticks = 3\noutput = \"\"\nactive = 1\n"

/-- The settings of a scenario are refused by the command, but the scenario is played, its clock runs back, and it passes. -/
theorem refused_settings_judged : (Scenario.runSource rest).verdict = .pass ∧
    ∃ x summary s, Expectation.parse rest = .ok (some x) ∧ Played rest x.start x.ticks x.fps summary s ∧ summary.ticks = 3 ∧
      s.stage.console.clock.now < x.start ∧
      ∀ (o : RunOptions) (colour : Bool), run colour (o.playing x) (.ok rest) = fpsRefusal x.fps := by
  have hpass := (Scenario.Entry.passed_iff { path := "", name := "", result := Scenario.runSource rest }).mp (by decide +kernel)
  obtain ⟨x, hx, hrefuses, hplays⟩ : ∃ x, Expectation.parse rest = .ok (some x) ∧ refusesFps x.fps = true ∧
      ((Scene.parse rest 0).toOption.any fun scene => (play scene x.start x.ticks x.fps).toOption.any fun ended =>
        ended.1.ticks = 3 ∧ ended.2.stage.console.clock.now < x.start) = true := Expectation.exists_given (by decide +kernel)
  obtain ⟨summary, s, hplayed, hticks, hback⟩ : ∃ summary s, Played rest x.start x.ticks x.fps summary s ∧ summary.ticks = 3 ∧
      s.stage.console.clock.now < x.start := exists_played hplays
  exact ⟨hpass, x, summary, s, hx, hplayed, hticks, hback, fun o colour => run_of_refusesFps (o := o.playing x) hrefuses (.ok rest)⟩

end CommandLine

end BlockScript
