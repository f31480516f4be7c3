import BlockScript.Proofs.Simulation.Playing
import BlockScript.Proofs.Text.Lines
import BlockScript.Scenario.Report

/-!
# When a scenario passes

A scenario that ends cleanly passes if it expects no error and if the output and the number of scripts left are as expected, where they
are given. One that ends with an error passes if it expects an error and a part of that error; what else it expects is not looked at.
So a scenario that passes met all its expectations, unless it expects an output or a number of scripts besides an error
(`passes_iff`).
-/

namespace BlockScript

open Simulation

namespace Expectation

/-- A run that ended cleanly is as expected: no error is expected, and the transcript and the number of scripts left are those that are
expected, where they are. -/
structure MetByRun (x : Expectation) (transcript : List String) (active : Nat) : Prop where
  error : x.error = none
  output : ∀ output, x.output = some output → transcript = outputLines output
  active : ∀ expected, x.active = some expected → active = expected

/-- An error is as expected: an error is expected, and what is expected of it occurs in it. -/
def MetByError (x : Expectation) (error : String) : Prop := ∃ part, x.error = some part ∧ part.toList <:+: error.toList

variable (x : Expectation)

/-- Nothing is left that differs from a value if all that is given is that value. -/
theorem filter_ne_eq_none_iff {α : Type} [BEq α] [LawfulBEq α] (given : Option α) (value : α) :
    given.filter (· != value) = none ↔ ∀ expected, given = some expected → value = expected := by
  rw [Option.filter_eq_none_iff]
  refine forall₂_congr fun expected _ => ?_
  rw [bne_iff_ne, not_not, eq_comm]

/-- A run passes exactly when it meets the expectation. -/
theorem judgeRun_eq_pass_iff (transcript : List String) (active : Nat) :
    x.judgeRun transcript active = .pass ↔ x.MetByRun transcript active := by
  have houtput := filter_ne_eq_none_iff (x.output.map outputLines) transcript
  have hactive := filter_ne_eq_none_iff x.active active
  simp only [Option.map_eq_some_iff, forall_exists_index, and_imp, forall_apply_eq_imp_iff₂] at houtput
  constructor
  · intro h
    rw [judgeRun] at h
    split at h
    · nomatch h
    · rename_i herror
      split at h
      · nomatch h
      · nomatch h
      · rename_i hsame hcount
        exact ⟨herror, houtput.mp hsame, hactive.mp hcount⟩
  · rintro ⟨herror, hsame, hcount⟩
    simp only [judgeRun, herror, houtput.mpr hsame, hactive.mpr hcount]

/-- An error passes exactly when it meets the expectation. -/
theorem judgeError_eq_pass_iff (transcript : List String) (error : String) :
    x.judgeError transcript error = .pass ↔ x.MetByError error := by
  rw [judgeError, MetByError]
  cases x.error with
  | none => simp
  | some part =>
    simp only [Option.some.injEq, exists_eq_left', ← Text.occursIn_iff]
    by_cases hpart : Text.occursIn part.toList error.toList = true <;> simp [hpart]

/-- What a file expects can be computed. -/
theorem exists_given {source : String} {P : Expectation → Prop} [DecidablePred P]
    (h : ((Expectation.parse source).toOption.join.any fun x => P x) = true) :
    ∃ x, Expectation.parse source = .ok (some x) ∧ P x := by
  rcases hparse : Expectation.parse source with cause | _ | x <;> rw [hparse] at h
  · nomatch h
  · nomatch h
  · exact ⟨x, rfl, of_decide_eq_true h⟩

/-- When a scenario passes, by the end that its scene comes to. -/
theorem judge_eq_pass_iff (source : String) : x.judge source = .pass ↔
    (∃ e, Refused source e ∧ x.MetByError e.message) ∨
      ∃ summary s, Played source x.start x.ticks x.fps summary s ∧ x.MetByRun s.transcript summary.active := by
  constructor
  · intro h
    rcases refused_or_played source x.start x.ticks x.fps with ⟨e, hrefused⟩ | ⟨summary, s, hplayed⟩
    · rw [judge_of_refused hrefused, judgeError_eq_pass_iff] at h
      exact .inl ⟨e, hrefused, h⟩
    · rw [judge_of_played hplayed, judgeRun_eq_pass_iff] at h
      exact .inr ⟨summary, s, hplayed, h⟩
  · rintro (⟨e, hrefused, h⟩ | ⟨summary, s, hplayed, h⟩)
    · rw [judge_of_refused hrefused, judgeError_eq_pass_iff]
      exact h
    · rw [judge_of_played hplayed, judgeRun_eq_pass_iff]
      exact h

end Expectation

namespace Scenario

open Expectation

/-- A scenario passes exactly when its expectation can be read and the judge passes it. -/
theorem runSource_eq_pass_iff (source : String) : (runSource source).verdict = .pass ↔
    ∃ x, Expectation.parse source = .ok (some x) ∧ x.judge source = .pass := by
  rw [runSource]
  rcases Expectation.parse source with cause | _ | x <;> simp

/-- An entry counts as passed exactly when its verdict is to pass. -/
theorem Entry.passed_iff (e : Entry) : e.passed = true ↔ e.result.verdict = .pass := by
  rw [Entry.passed]
  cases e.result.verdict <;> simp

/-- When a scenario passes. Its file can be read and states an expectation. Then either its scene is refused, an error is expected, and
what is expected of it occurs in the error that is reported; nothing else that is expected is looked at. Or its scene is played to a
clean end, no error is expected, and the transcript and the number of scripts left are those that are expected, where they are. -/
theorem passes_iff (file : Except ReadError String) : (runFile file).verdict = .pass ↔
    ∃ source x, file = .ok source ∧ Expectation.parse source = .ok (some x) ∧
      ((∃ e, Refused source e ∧ x.MetByError e.message) ∨
        ∃ summary s, Played source x.start x.ticks x.fps summary s ∧ summary.active = s.runningScripts.length ∧
          x.MetByRun s.transcript summary.active) := by
  cases file with
  | error cause => simp [runFile]
  | ok source =>
    rw [runFile, runSource_eq_pass_iff]
    constructor
    · rintro ⟨x, hx, hpass⟩
      refine ⟨source, x, rfl, hx, ((judge_eq_pass_iff x source).mp hpass).imp_right ?_⟩
      rintro ⟨summary, s, hplayed, hmet⟩
      exact ⟨summary, s, hplayed, hplayed.account.1, hmet⟩
    · rintro ⟨source, x, ⟨⟩, hx, hmet⟩
      refine ⟨x, hx, (judge_eq_pass_iff x source).mpr (hmet.imp_right ?_)⟩
      rintro ⟨summary, s, hplayed, -, hrun⟩
      exact ⟨summary, s, hplayed, hrun⟩

/-- A scene that switches a lamp it does not have, which is expected to be refused, and also to switch the lamp and to have a script
left. -/
def lampless : String :=
  "[[scripts]]\nname = \"lights\"\nblocks = [\x7b enable = \"lamp\" \x7d]\n\n" ++
  "[expect]\nerror = \"lamp\"\noutput = \"[enable] lamp\"\nactive = 1\n"

/-- A scenario passes although its scene wrote nothing and a line is expected of it. -/
theorem refused_scene_passes_unchecked : (runSource lampless).verdict = .pass ∧
    ∃ x e, Expectation.parse lampless = .ok (some x) ∧ Refused lampless e ∧ x.active = some 1 ∧
      ∃ output, x.output = some output ∧ outputLines output = ["[enable] lamp"] := by
  have hpass := (Entry.passed_iff { path := "", name := "", result := runSource lampless }).mp (by decide +kernel)
  obtain ⟨e, hrefused⟩ : ∃ e, Refused lampless e := exists_refused (by decide +kernel)
  obtain ⟨x, hx, hactive, houtput⟩ : ∃ x, Expectation.parse lampless = .ok (some x) ∧ x.active = some 1 ∧
      x.output.map outputLines = some ["[enable] lamp"] := exists_given (by decide +kernel)
  obtain ⟨output, hsome, hlines⟩ := Option.map_eq_some_iff.mp houtput
  exact ⟨hpass, x, e, hx, hrefused, hactive, output, hsome, hlines⟩

end Scenario

end BlockScript
