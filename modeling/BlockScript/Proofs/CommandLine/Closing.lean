import BlockScript.Proofs.Simulation.Playing

/-!
# The last line of a run

A run ends with a line that says whether the scene finished or which scripts are left. The line is chosen by the text of the names that
are left, joined by commas: it says that the scene finished if that text is empty. So it is right whenever no script is left, and wrong
about one case alone, a single script that is left and has the empty name (`run_closing`).
-/

namespace BlockScript.CommandLine

open Simulation

/-- How many ticks a run made, and how much time passed. -/
def tally (summary : Summary) : String :=
  " after " ++ toString summary.ticks ++ " ticks (" ++ Decimal.fixedText summary.elapsed ++ "s)"

/-- The line that says that a scene finished. -/
def finishedLine (summary : Summary) : String := "finished" ++ tally summary

/-- The line that says which scripts are left. -/
def stoppedLine (summary : Summary) (running : List String) : String :=
  "stopped" ++ tally summary ++ ", still running: " ++ ", ".intercalate running

/-- Names joined by commas make an empty text if there are none, or if there is one and it is empty. -/
theorem isEmpty_intercalate (names : List String) : (", ".intercalate names).isEmpty = true ↔ names = [] ∨ names = [""] := by
  match names with
  | [] => simp
  | [name] => simp
  | name :: next :: names => simp [String.intercalate_cons_cons]

variable {summary : Summary} {running : List String}

/-- The closing line reports an end where nothing is running, or one script without a name. -/
theorem closingLine_finished (h : running = [] ∨ running = [""]) : closingLine summary running = finishedLine summary :=
  if_pos ((isEmpty_intercalate running).mpr h)

/-- The closing line reports in all other cases what is still running. -/
theorem closingLine_stopped (h : ¬(running = [] ∨ running = [""])) :
    closingLine summary running = stoppedLine summary running :=
  if_neg (mt (isEmpty_intercalate running).mp h)

/-- The two lines begin differently. -/
theorem finishedLine_ne_stoppedLine (summary summary' : Summary) (running : List String) :
    finishedLine summary ++ "\n" ≠ stoppedLine summary' running ++ "\n" := by
  intro heq
  have hfinished : "finished".toList.head? = some 'f' := rfl
  have hstopped : "stopped".toList.head? = some 's' := rfl
  have hhead := congrArg (fun line => line.toList.head?) heq
  simp only [finishedLine, stoppedLine, String.toList_append, List.append_assoc, List.head?_append, hfinished, hstopped,
    Option.some_or, Option.some.injEq] at hhead
  exact absurd hhead (by decide)

/-- A run that reaches its last line was given a source that was played. -/
theorem exists_played_of_exit {colour : Bool} {o : RunOptions} {source : Except ReadError String}
    (h : (run colour o source).exit = 0) : ∃ text summary s, source = .ok text ∧ Played text o.start o.ticks o.fps summary s ∧
      run colour o source = playedOutput o summary s := by
  have hfps : refusesFps o.fps = false := by
    refine Bool.eq_false_iff.mpr fun hrefuses => ?_
    rw [run_of_refusesFps hrefuses] at h
    exact absurd h (by decide : 2 ≠ 0)
  cases source with
  | error cause =>
    rw [run, if_neg (Bool.eq_false_iff.mp hfps)] at h
    exact absurd h (by decide : 1 ≠ 0)
  | ok text =>
    rcases refused_or_played text o.start o.ticks o.fps with ⟨e, hrefused⟩ | ⟨summary, s, hplayed⟩
    · rw [run_of_refused hfps hrefused] at h
      exact absurd h (by decide : 1 ≠ 0)
    · exact ⟨text, summary, s, rfl, hplayed, run_of_played hfps hplayed⟩

/-- What the last line of a run says. A run that reaches its last line was given the source of a scene and played it; the scripts that
are left are those whose roots are still registered, and the summary counts them. The line says that the scene finished exactly if no
script is left, or a single one that has the empty name; in all other cases it names the scripts that are left, in order of their
declaration. -/
theorem run_closing {colour : Bool} {o : RunOptions} {source : Except ReadError String} (h : (run colour o source).exit = 0) :
    ∃ text summary s, source = .ok text ∧ Played text o.start o.ticks o.fps summary s ∧ summary.active = s.runningScripts.length ∧
      ((run colour o source).stderr = finishedLine summary ++ "\n" ↔ summary.active = 0 ∨ s.runningScripts = [""]) ∧
      ((run colour o source).stderr = stoppedLine summary s.runningScripts ++ "\n" ↔
        summary.active ≠ 0 ∧ s.runningScripts ≠ [""]) := by
  obtain ⟨text, summary, s, htext, hplayed, hrun⟩ := exists_played_of_exit h
  obtain ⟨hactive, -, -⟩ := hplayed.account
  have hnone : summary.active = 0 ↔ s.runningScripts = [] := by rw [hactive, List.length_eq_zero_iff]
  refine ⟨text, summary, s, htext, hplayed, hactive, ?_, ?_⟩
  · rw [hrun, playedOutput, hnone]
    by_cases hleft : s.runningScripts = [] ∨ s.runningScripts = [""]
    · rw [closingLine_finished hleft]
      exact iff_of_true rfl hleft
    · rw [closingLine_stopped hleft]
      exact iff_of_false (finishedLine_ne_stoppedLine _ _ _).symm hleft
  · rw [hrun, playedOutput, ← not_or, hnone]
    by_cases hleft : s.runningScripts = [] ∨ s.runningScripts = [""]
    · rw [closingLine_finished hleft]
      exact iff_of_false (finishedLine_ne_stoppedLine _ _ _) (not_not.mpr hleft)
    · rw [closingLine_stopped hleft]
      exact iff_of_true rfl hleft

/-- A script that waits for something that never happens. -/
def vigil : String :=
  "[variables]\ndawn = false\n\n[[scripts]]\nname = \"guard\"\nblocks = [\x7b wait_until = \x7b var = \"dawn\", value = true \x7d \x7d]\n"

/-- A scene whose script is still waiting when the ticks are over. -/
theorem run_closing_vigil : (run false { scene := "tower.toml", ticks := 2, fps := 4.0 } (.ok vigil)).exit = 0 ∧
    ∃ text summary s, Except.ok vigil = Except.ok (ε := ReadError) text ∧ Played text 0.0 2 4.0 summary s ∧
      summary.active = s.runningScripts.length ∧
      ((run false { scene := "tower.toml", ticks := 2, fps := 4.0 } (.ok vigil)).stderr = finishedLine summary ++ "\n" ↔
        summary.active = 0 ∨ s.runningScripts = [""]) ∧
      ((run false { scene := "tower.toml", ticks := 2, fps := 4.0 } (.ok vigil)).stderr =
        stoppedLine summary s.runningScripts ++ "\n" ↔ summary.active ≠ 0 ∧ s.runningScripts ≠ [""]) := by
  have hexit : (run false { scene := "tower.toml", ticks := 2, fps := 4.0 } (.ok vigil)).exit = 0 := by decide +kernel
  exact ⟨hexit, run_closing hexit⟩

/-- A scene with one script, which never ends and has the empty name. -/
def unnamed : String := "[[scripts]]\nname = \"\"\nblocks = [\x7b repeat_forever = [\x7b log = \"on\" \x7d] \x7d]\n"

/-- A run is told to have finished although its only script is left. -/
theorem unnamed_script_overlooked : run false { scene := "hall.toml", ticks := 2, fps := 4.0 } (.ok unnamed) =
      { stdout := "[log] on\n[log] on\n", stderr := "finished after 2 ticks (0.50s)\n" } ∧
    ∃ summary s, Played unnamed 0.0 2 4.0 summary s ∧ summary.active = 1 ∧ s.runningScripts = [""] := by
  exact ⟨by decide +kernel, exists_played (by decide +kernel)⟩

end BlockScript.CommandLine
