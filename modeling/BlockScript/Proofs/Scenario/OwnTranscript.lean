import BlockScript.Proofs.Scenario.Judging
import BlockScript.Proofs.Simulation.Transcript

/-!
# A scenario that expects its own transcript

The output that a scenario expects is trimmed, cut into lines, and each line is trimmed again, but the transcript that it is compared
with stays as it was written. So a scenario that expects its own transcript, with its lines joined by line feeds, passes exactly if none
of the lines ends in white space or holds a line feed (`own_transcript_accepted`).
-/

namespace BlockScript

open Simulation Text

namespace Expectation

/-- All lines that an expected output asks for are tidy. -/
theorem tidy_of_mem_outputLines {output line : String} (h : line ∈ outputLines output) : Tidy line.toList := by
  obtain ⟨cs, hcs, rfl⟩ := List.mem_map.mp h
  obtain ⟨htrimmed, hne⟩ := List.mem_filter.mp hcs
  obtain ⟨raw, hraw, rfl⟩ := List.mem_map.mp htrimmed
  rw [String.toList_ofList]
  exact ⟨bare_trim raw, by simpa using hne, fun hfeed => not_mem_lines _ raw hraw ((trim_sublist raw).subset hfeed)⟩

/-- Lines that are joined by line feeds are what the joined text asks for exactly if all of them are tidy. -/
theorem outputLines_intercalate_iff (lines : List String) :
    outputLines ("\n".intercalate lines) = lines ↔ ∀ line ∈ lines, Tidy line.toList := by
  constructor
  · intro h line hline
    rw [← h] at hline
    exact tidy_of_mem_outputLines hline
  · intro h
    have htidy : ∀ cs ∈ lines.map String.toList, Tidy cs := List.forall_mem_map.mpr h
    have htrim : (lines.map String.toList).map trim = lines.map String.toList :=
      List.map_congr_left (fun cs hcs => trim_of_bare (htidy cs hcs).toBare) |>.trans (List.map_id _)
    have hkeep : (lines.map String.toList).filter (!·.isEmpty) = lines.map String.toList :=
      List.filter_eq_self.mpr fun cs hcs => by simpa using (htidy cs hcs).ne_nil
    rw [outputLines, String.toList_intercalate, show "\n".toList = ['\n'] from rfl, trim_of_bare (bare_intercalate htidy),
      lines_intercalate htidy, htrim, hkeep, List.map_map]
    exact (List.map_congr_left fun line _ => String.ofList_toList).trans (List.map_id _)

/-- The same way to play, with nothing expected but the lines of a transcript. -/
def expecting (x : Expectation) (transcript : List String) : Expectation :=
  { x with output := some ("\n".intercalate transcript), error := none, active := none }

variable {source : String} {x : Expectation} {summary : Summary} {s : SceneSimulation}

/-- A run meets the expectation of its own transcript exactly when every line is tidy. -/
theorem metByRun_expecting_iff (transcript : List String) (active : Nat) :
    (x.expecting transcript).MetByRun transcript active ↔ ∀ line ∈ transcript, Tidy line.toList := by
  rw [← outputLines_intercalate_iff]
  constructor
  · exact fun h => (h.output _ rfl).symm
  · intro h
    refine ⟨rfl, ?_, nofun⟩
    rintro output ⟨⟩
    exact h.symm

/-- What is written begins with a bracket, so it is tidy if it ends well. -/
theorem tidy_iff_settled_of_played (h : Played source x.start x.ticks x.fps summary s) {line : String} (hline : line ∈ s.transcript) :
    Tidy line.toList ↔ Settled line.toList := by
  obtain ⟨scene, -, hlines⟩ := h.transcript_subset
  exact tidy_iff_settled (scene.lines_bracketed line (hlines hline)) (by decide)

/-- When a scenario accepts its own transcript. A source was played, and is judged by nothing but the lines of its own transcript, joined
by line feeds. Then it passes if and only if no line of the transcript ends in white space or holds a line feed. In particular it passes,
however it is played, if no line that a step of the scene can write does. -/
theorem own_transcript_accepted (h : Played source x.start x.ticks x.fps summary s) :
    ((x.expecting s.transcript).judge source = .pass ↔ ∀ line ∈ s.transcript, Settled line.toList) ∧
      ∀ scene, Scene.parse source 0 = .ok scene → (∀ line ∈ scene.lines, Settled line.toList) →
        (x.expecting s.transcript).judge source = .pass := by
  have hpass : (x.expecting s.transcript).judge source = .pass ↔ ∀ line ∈ s.transcript, Settled line.toList := by
    have hplayed : Played source (x.expecting s.transcript).start (x.expecting s.transcript).ticks (x.expecting s.transcript).fps
        summary s := h
    rw [judge_of_played hplayed, judgeRun_eq_pass_iff, metByRun_expecting_iff]
    exact forall₂_congr fun line hline => tidy_iff_settled_of_played h hline
  refine ⟨hpass, fun scene hscene hsettled => hpass.mpr fun line hline => ?_⟩
  obtain ⟨scene', hscene', hlines⟩ := h.transcript_subset
  cases hscene.symm.trans hscene'
  exact hsettled line (hlines hline)

/-- A scene that greets and takes its leave. -/
def greeting : String :=
  "[[scripts]]\nname = \"greeting\"\nblocks = [\x7b say = \x7b message = \"hello\" \x7d \x7d, \x7b log = \"bye\" \x7d]\n"

/-- A greeting with two lines, which both are tidy. -/
theorem greeting_accepts_its_transcript : ∃ summary s, Played greeting 0.0 4 4.0 summary s ∧
    s.transcript = ["[say] hello", "[log] bye"] ∧
    (({ ticks := 4, fps := 4.0 } : Expectation).expecting s.transcript).judge greeting = .pass := by
  obtain ⟨summary, s, hplayed, hlines⟩ : ∃ summary s, Played greeting 0.0 4 4.0 summary s ∧
      s.transcript = ["[say] hello", "[log] bye"] := exists_played (by decide +kernel)
  refine ⟨summary, s, hplayed, hlines, ?_⟩
  refine (own_transcript_accepted (x := { ticks := 4, fps := 4.0 }) hplayed).1.mpr ?_
  rw [hlines]
  decide

/-- A scenario that expects what its scene writes, a message with a blank at its end. -/
def talk : String :=
  "[[scripts]]\nname = \"talk\"\nblocks = [\x7b say = \x7b message = \"hi \" \x7d \x7d]\n\n" ++
  "[expect]\nticks = 4\noutput = \"[say] hi \"\n"

/-- A scenario fails although it expects its own transcript and nothing else. -/
theorem own_transcript_refused : (Scenario.runSource talk).verdict ≠ .pass ∧
    ∃ x summary s, Expectation.parse talk = .ok (some x) ∧ Played talk x.start x.ticks x.fps summary s ∧
      s.transcript = ["[say] hi "] ∧ x.output = some ("\n".intercalate s.transcript) ∧ x.error = none ∧ x.active = none := by
  obtain ⟨x, hx, houtput, herror, hactive, hplays⟩ : ∃ x, Expectation.parse talk = .ok (some x) ∧ x.output = some "[say] hi " ∧
      x.error = none ∧ x.active = none ∧ ((Scene.parse talk 0).toOption.any fun scene =>
        (play scene x.start x.ticks x.fps).toOption.any fun ended => ended.2.transcript = ["[say] hi "]) = true :=
    exists_given (by decide +kernel)
  obtain ⟨summary, s, hplayed, hlines⟩ : ∃ summary s, Played talk x.start x.ticks x.fps summary s ∧
      s.transcript = ["[say] hi "] := exists_played hplays
  refine ⟨fun hpass => ?_, x, summary, s, hx, hplayed, hlines, by rw [hlines, houtput]; rfl, herror, hactive⟩
  -- the blank is lost from the line that is expected, and kept in the line that is written
  obtain ⟨x', hx', hpass⟩ := (Scenario.runSource_eq_pass_iff talk).mp hpass
  cases hx.symm.trans hx'
  have hsame := ((judgeRun_eq_pass_iff x _ _).mp (judge_of_played hplayed ▸ hpass)).output _ houtput
  rw [hlines] at hsame
  exact absurd hsame (by decide)

end Expectation

end BlockScript
