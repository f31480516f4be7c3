import BlockScript.Proofs.Simulation.Confinement
import BlockScript.Proofs.Simulation.Opening
import Mathlib.Data.List.Forall2

/-!
# Scripts that share no writes

Scripts of one scene that assign none of each other's variables do not influence each other. The invariant `Ensemble` compares the
roots of a scene with simulations of each of its scripts alone: the copies of a script are in step and see the same time and the same
values of its variables, up to the tick in which both finish. A tick visits the newest root first, and what it does to the stage
leaves the stages similar for all other scripts, so every tick keeps the invariant, and its lines are those of the single scripts,
the last declared first (`scripts_independent`).
-/

namespace BlockScript

open Stage

/-- No variable that one of two scripts assigns is mentioned by the other. -/
def Script.Apart (a b : Script) : Prop :=
  (∀ v, Mentioned a.references v → .assigned v ∉ b.references) ∧ ∀ v, Mentioned b.references v → .assigned v ∉ a.references

/-- Scripts that are apart from one assign nothing that it mentions. -/
theorem Script.not_assigned {script : Script} {scripts : List Script} (h : ∀ other ∈ scripts, script.Apart other) {v : String}
    (hv : Mentioned script.references v) : .assigned v ∉ scripts.flatMap Script.references := by
  intro hassigned
  obtain ⟨other, hother, hassigned⟩ := List.mem_flatMap.mp hassigned
  exact (h other hother).1 v hv hassigned

/-- A scene reduced to one script. -/
def Scene.only (scene : Scene) (script : Script) : Scene := { scene with scripts := [script] }

/-! ## One visit of both copies -/

section

variable {refs : List Reference} {b c : BuiltIn Stage} {s s' : Stage} (dt : Float)

/-- Two copies of a script that are in step are visited on stages that look alike to them. -/
theorem Following.visit (h : Following refs b c) (hs : Similar refs s s') (id k : Nat) :
    (Visit.mk id b s).outcome dt = (Visit.mk k c s').outcome dt ∧
      (Visit.mk id b s).finished dt = (Visit.mk k c s').finished dt ∧
      Following refs ((Visit.mk id b s).after dt) ((Visit.mk k c s').after dt) ∧
      Similar refs ((Visit.mk id b s).left dt) ((Visit.mk k c s').left dt) ∧
      ∃ added, Became refs s ((Visit.mk id b s).left dt) added ∧ Became refs s' ((Visit.mk k c s').left dt) added := by
  obtain ⟨houtcome, hfollowing, hcomplete, hafter⟩ := h.run hs dt
  rw [Visit.left_eq_reached, Visit.left_eq_reached]
  refine ⟨houtcome, ?_, hfollowing, hafter⟩
  have hoks : ((Visit.mk id b s).outcome dt).isOk = ((Visit.mk k c s').outcome dt).isOk := congrArg Except.isOk houtcome
  unfold Visit.finished
  rw [hoks]
  exact congrArg _ hcomplete

/-- The clock of a stage moves on. -/
def Stage.clocked (delta : Float) (s : Stage) : Stage := s.modifyConsole (·.advance delta)

/-- Similar stages stay so when their clocks move. -/
theorem Stage.Similar.clocked (h : Similar refs s s') (delta : Float) : Similar refs (s.clocked delta) (s'.clocked delta) where
  ready := h.ready
  ready' := h.ready'
  time := congrArg (· + delta) h.time
  values := h.values

end

namespace Simulation

/-- The step of a simulation with one root is one visit. -/
theorem step_single {s : SceneSimulation} {k : Nat} {c : BuiltIn Stage} (h : s.context.runner.roots = [(k, c)]) (delta : Float) :
    (s.step delta).context.runner.roots = ((Visit.mk k c (s.stage.clocked delta)).kept delta).toList ∧
      (s.step delta).stage = (Visit.mk k c (s.stage.clocked delta)).left delta := by
  have hbusy : ¬s.context.runner.isIdle = true := by simp [Runner.isIdle, h]
  have hvisit : Runner.advance delta [(k, c)] (s.stage.clocked delta) =
      ((Visit.mk k c (s.stage.clocked delta)).outcome delta, ((Visit.mk k c (s.stage.clocked delta)).kept delta).toList ++ [],
        (Visit.mk k c (s.stage.clocked delta)).left delta) :=
    Runner.advance_visit (Visit.mk k c (s.stage.clocked delta)) rfl
  rw [step, if_neg hbusy]
  simp only [tick, Context.process, Runner.process, h]
  exact ⟨(congrArg (·.2.1) hvisit).trans (List.append_nil _), congrArg (·.2.2) hvisit⟩

end Simulation

/-! ## The scripts together and alone -/

/-- A common stage and the roots of some scripts, beside simulations of each script alone. -/
inductive Ensemble (stage : Stage) : List Script → List (Nat × BuiltIn Stage) → List SceneSimulation → Prop where
  | nil : Ensemble stage [] [] []
  /-- Both copies of the first script go on: they are in step, and the stages look alike to them. -/
  | playing {script : Script} {scripts : List Script} {id k : Nat} {b c : BuiltIn Stage} {roots : List (Nat × BuiltIn Stage)}
      {solo : SceneSimulation} {solos : List SceneSimulation} : solo.context.runner.roots = [(k, c)] →
      Following script.references b c → Similar script.references stage solo.stage → Ensemble stage scripts roots solos →
      Ensemble stage (script :: scripts) ((id, b) :: roots) (solo :: solos)
  /-- Both copies of the first script have finished; its variables have the same values. -/
  | finished {script : Script} {scripts : List Script} {roots : List (Nat × BuiltIn Stage)} {solo : SceneSimulation}
      {solos : List SceneSimulation} : solo.context.runner.roots = [] →
      (∀ v, Mentioned script.references v → stage.valueOf v = solo.stage.valueOf v) → Ensemble stage scripts roots solos →
      Ensemble stage (script :: scripts) roots (solo :: solos)

namespace Ensemble

variable {stage stage' : Stage} {scripts : List Script} {roots : List (Nat × BuiltIn Stage)} {solos : List SceneSimulation}

/-- The variables of each script have the same values on the common stage and in its own simulation. -/
theorem values (h : Ensemble stage scripts roots solos) : List.Forall₂ (fun script solo =>
    ∀ v, Mentioned script.references v → stage.valueOf v = solo.stage.valueOf v) scripts solos := by
  induction h with
  | nil => exact .nil
  | playing _ _ hsimilar _ ih => exact .cons hsimilar.values ih
  | finished _ hvalues _ ih => exact .cons hvalues ih

/-- Once no root is left, no script by itself has one. -/
theorem idle (h : Ensemble stage scripts [] solos) : ∀ solo ∈ solos, solo.context.runner.isIdle = true := by
  generalize hroots : ([] : List (Nat × BuiltIn Stage)) = roots at h
  induction h with
  | nil => exact nofun
  | playing => nomatch hroots
  | finished hidle _ _ ih => exact List.forall_mem_cons.mpr ⟨by simp [Runner.isIdle, hidle], ih hroots⟩

/-- What other blocks did to the common stage does not matter if they assigned no variable that is mentioned here. -/
theorem of_became (h : Ensemble stage scripts roots solos) {refs : List Reference} {added : List String}
    (hbecame : Became refs stage stage' added)
    (hapart : ∀ script ∈ scripts, ∀ v, Mentioned script.references v → .assigned v ∉ refs) :
    Ensemble stage' scripts roots solos := by
  induction h with
  | nil => exact .nil
  | playing hroots hfollowing hsimilar _ ih =>
    obtain ⟨hscript, hscripts⟩ := List.forall_mem_cons.mp hapart
    exact .playing hroots hfollowing (hsimilar.of_became hbecame hscript) (ih hscripts)
  | finished hroots hvalues _ ih =>
    obtain ⟨hscript, hscripts⟩ := List.forall_mem_cons.mp hapart
    exact .finished hroots (fun v hv => (hbecame.kept v (hscript v hv)).trans (hvalues v hv)) (ih hscripts)

/-- The lines that one step of each simulation adds. -/
def StepLines (delta : Float) (solos : List SceneSimulation) (added : List (List String)) : Prop :=
  List.Forall₂ (fun solo lines => (solo.step delta).stage.lines = solo.stage.lines ++ lines) solos added

/-- A tick of all roots, from the newest, does to the common stage what the steps of the single scripts do to theirs. -/
theorem advance (h : Ensemble stage scripts roots solos) (hapart : scripts.Pairwise Script.Apart) (delta : Float)
    (hok : (Runner.advance delta roots (stage.clocked delta)).1 = .ok ()) :
    ∃ added, StepLines delta solos added ∧
      Became (scripts.flatMap Script.references) (stage.clocked delta)
        (Runner.advance delta roots (stage.clocked delta)).2.2 added.reverse.flatten ∧
      Ensemble (Runner.advance delta roots (stage.clocked delta)).2.2 scripts
        (Runner.advance delta roots (stage.clocked delta)).2.1 (solos.map (Simulation.step delta)) := by
  induction h with
  | nil => exact ⟨[], .nil, .refl _ _, .nil⟩
  | @playing script scripts id k b c roots solo solos hroots hfollowing hsimilar hrest ih =>
    obtain ⟨hscript, hscripts⟩ := List.pairwise_cons.mp hapart
    rcases hnewer : Runner.advance delta roots (stage.clocked delta) with ⟨e | ⟨⟩, roots', w⟩
    · rw [Runner.advance_failed hnewer] at hok
      nomatch hok
    · rw [hnewer] at ih
      obtain ⟨added, hlines, hbecame, hensemble⟩ := ih hscripts rfl
      -- The newer scripts assigned nothing that this one mentions, so its copies still see the same.
      have hseen : Similar script.references w (solo.stage.clocked delta) :=
        (hsimilar.clocked delta).of_became hbecame fun _ => Script.not_assigned hscript
      obtain ⟨-, hfinished, hafter, hleft, line, hfull, halone⟩ := hfollowing.visit delta hseen id k
      obtain ⟨hsolo, hsoloStage⟩ := Simulation.step_single hroots delta
      have hvisit : Runner.advance delta ((id, b) :: roots) (stage.clocked delta) =
          ((Visit.mk id b w).outcome delta, ((Visit.mk id b w).kept delta).toList ++ roots', (Visit.mk id b w).left delta) :=
        Runner.advance_visit (Visit.mk id b w) hnewer
      -- Nor did this one assign anything that they mention.
      have hothers := hensemble.of_became hfull fun other hother => (hscript other hother).2
      rw [hvisit]
      refine ⟨line :: added, .cons (by rw [hsoloStage]; exact halone.lines) hlines, ?_, ?_⟩
      · rw [List.reverse_cons, List.flatten_append, List.flatten_singleton]
        exact (hbecame.mono (List.subset_append_right _ _)).trans (hfull.mono (List.subset_append_left _ _))
      · rw [← hsoloStage] at hleft
        unfold Visit.kept at hsolo ⊢
        rw [← hfinished] at hsolo
        cases hdone : (Visit.mk id b w).finished delta with
        | true =>
          rw [hdone] at hsolo
          exact .finished hsolo hleft.values hothers
        | false =>
          rw [hdone] at hsolo
          exact .playing hsolo hafter hleft hothers
  | @finished script scripts roots solo solos hroots hvalues hrest ih =>
    obtain ⟨hscript, hscripts⟩ := List.pairwise_cons.mp hapart
    obtain ⟨added, hlines, hbecame, hensemble⟩ := ih hscripts hok
    have hstep : solo.step delta = solo := Simulation.step_idle (by simp [Runner.isIdle, hroots]) delta
    refine ⟨[] :: added, .cons (by rw [hstep, List.append_nil]) hlines, ?_, ?_⟩
    · rw [List.reverse_cons, List.flatten_append, List.flatten_singleton, List.append_nil]
      exact hbecame.mono (List.subset_append_right _ _)
    · rw [List.map_cons, hstep]
      refine .finished hroots (fun v hv => ?_) hensemble
      exact (hbecame.kept v (Script.not_assigned hscript hv)).trans (hvalues v hv)

/-- A step of the whole scene adds the lines that steps of the single scripts add, the last script first. -/
theorem step {s : SceneSimulation} (hs : s.Safe) (h : Ensemble s.stage scripts s.context.runner.roots solos)
    (hapart : scripts.Pairwise Script.Apart) (delta : Float) :
    ∃ added, StepLines delta solos added ∧ (s.step delta).stage.lines = s.stage.lines ++ added.reverse.flatten ∧
      Ensemble (s.step delta).stage scripts (s.step delta).context.runner.roots (solos.map (Simulation.step delta)) := by
  by_cases hidle : s.context.runner.isIdle = true
  · have hroots : s.context.runner.roots = [] := List.isEmpty_iff.mp hidle
    have hsolos : ∀ solo ∈ solos, solo.step delta = solo := fun solo hsolo =>
      Simulation.step_idle (idle (hroots ▸ h) solo hsolo) delta
    refine ⟨solos.map fun _ => [], ?_, ?_, ?_⟩
    · exact List.forall₂_map_right_iff.mpr (List.forall₂_same.mpr fun solo hsolo => by simp [hsolos solo hsolo])
    · simp [Simulation.step_idle hidle]
    · rwa [Simulation.step_idle hidle, List.map_congr_left hsolos, List.map_id'']
      exact fun _ => rfl
  · have hok : (Runner.advance delta s.context.runner.roots (s.stage.clocked delta)).1 = .ok () := (Simulation.tick_safe hs delta).1
    obtain ⟨added, hlines, hbecame, hensemble⟩ := h.advance hapart delta hok
    rw [Simulation.step, if_neg hidle]
    exact ⟨added, hlines, hbecame.lines, hensemble⟩

/-- The scripts are together what they are alone after any number of steps. -/
theorem steps {s : SceneSimulation} (hs : s.Safe) (h : Ensemble s.stage scripts s.context.runner.roots solos)
    (hapart : scripts.Pairwise Script.Apart) (delta : Float) (ticks : Nat) :
    ((Simulation.step delta)^[ticks] s).Safe ∧ Ensemble ((Simulation.step delta)^[ticks] s).stage scripts
      ((Simulation.step delta)^[ticks] s).context.runner.roots (solos.map (Simulation.step delta)^[ticks]) := by
  induction ticks with
  | zero => simpa using ⟨hs, h⟩
  | succ ticks ih =>
    obtain ⟨hsafe, hensemble⟩ := ih
    obtain ⟨added, -, -, hensemble'⟩ := hensemble.step hsafe hapart delta
    rw [Function.iterate_succ', ← List.map_map]
    exact ⟨Simulation.step_safe hsafe delta, hensemble'⟩

/-- Scripts that are entered on one stage, together and each by itself. -/
theorem start (hready : stage.Ready) (hentered : ∀ script ∈ scripts, ((script.translate Stage.handle).enter stage).1 = .ok ())
    (hroots : roots.map (·.2) = scripts.map fun script => ((script.translate Stage.handle).enter stage).2.1)
    (hsolos : List.Forall₂ (fun script (solo : SceneSimulation) => solo.stage = stage ∧ solo.context.runner.roots.map (·.2) =
      [((script.translate Stage.handle).enter stage).2.1]) scripts solos) :
    Ensemble stage scripts roots solos := by
  induction hsolos generalizing roots with
  | nil =>
    obtain rfl : roots = [] := by simpa using hroots
    exact .nil
  | @cons script solo scripts solos hsolo _ ih =>
    obtain ⟨hok, hrest⟩ := List.forall_mem_cons.mp hentered
    obtain ⟨hstage, halone⟩ := hsolo
    obtain ⟨⟨id, b⟩, others, rfl, rfl, hothers⟩ := List.map_eq_cons_iff.mp hroots
    obtain ⟨⟨k, c⟩, further, honly, rfl, hnone⟩ := List.map_eq_cons_iff.mp halone
    obtain rfl : further = [] := by simpa using hnone
    refine .playing honly (following_of_entered script.translate_confined hready hok) ?_ (ih hrest hothers)
    rw [hstage]
    exact ⟨hready, hready, rfl, fun _ _ => rfl⟩

end Ensemble

/-! ## Scenes -/

/-- Computations that all succeed make up a traversal that does. -/
theorem exists_mapM_eq_ok {ε β γ : Type} {f : β → Except ε γ} {bs : List β} (h : ∀ b ∈ bs, ∃ c, f b = .ok c) :
    ∃ cs, bs.mapM f = .ok cs ∧ List.Forall₂ (fun b c => f b = .ok c) bs cs := by
  induction bs with
  | nil => exact ⟨[], rfl, .nil⟩
  | cons b bs ih =>
    obtain ⟨⟨c, hc⟩, hbs⟩ := List.forall_mem_cons.mp h
    obtain ⟨cs, hcs, hall⟩ := ih hbs
    refine ⟨c :: cs, ?_, .cons hc hall⟩
    rw [List.mapM_cons, hc, hcs]
    rfl

namespace Simulation

/-- These lines are what tick number `t + 1` of a run adds to the transcript. -/
def Adds (s : SceneSimulation) (fps : Float) (t : Nat) (lines : List String) : Prop :=
  (s.run (t + 1) fps).2.transcript = (s.run t fps).2.transcript ++ lines

/-- A new simulation is safe. -/
theorem safe_of_new {scene : Scene} {start : Float} {s : SceneSimulation} (h : new scene start = .ok s) : s.Safe := by
  rcases new_safe scene start with ⟨cause, herror⟩ | ⟨s', hs', hsafe⟩
  · rw [h] at herror
    nomatch herror
  · rw [h] at hs'
    cases hs'
    exact hsafe

/-- A scene that was accepted is accepted with any one of its scripts. -/
theorem new_only {scene : Scene} {start : Float} {s : SceneSimulation} (h : new scene start = .ok s) {script : Script}
    (hscript : script ∈ scene.scripts) : ∃ solo, new (scene.only script) start = .ok solo := by
  obtain ⟨hdistinct, hdeclared⟩ := names_in_order h
  have hreferences : ∀ x ∈ (scene.only script).references, (scene.only script).Declares x.2 := by
    intro x hx
    have hx' : x ∈ scene.references := List.mem_flatMap.mpr ⟨script, hscript, by simpa [Scene.references, Scene.only] using hx⟩
    have hdecl := hdeclared x hx'
    rcases hr : x.2 <;> rw [hr] at hdecl <;> exact hdecl
  obtain ⟨built, hbuild⟩ : ∃ built, (scene.only script).build Stage.handle = .ok built :=
    Scene.build_ok hdistinct hreferences
  exact new_ok_of_build hbuild start

/-- Scripts without shared writes do not influence each other. If no variable that one script of a scene assigns is mentioned by
another, each script can be played alone, and then every tick of the scene writes the lines that the scripts write alone in that tick,
those of the script declared last first; a script that has finished alone writes none. And after any number of ticks every variable
that a script assigns has the value that it has when the script is played alone. -/
theorem scripts_independent {scene : Scene} {start : Float} {s : SceneSimulation} (h : new scene start = .ok s)
    (hapart : scene.scripts.Pairwise Script.Apart) :
    ∃ solos, scene.scripts.mapM (fun script => new (scene.only script) start) = .ok solos ∧ ∀ fps t,
      (∃ added : List (List String), s.Adds fps t added.reverse.flatten ∧
        List.Forall₂ (fun solo lines => solo.Adds fps t lines ∧
          ((solo.run t fps).2.context.runner.isIdle = true → lines = [])) solos added) ∧
      List.Forall₂ (fun script solo => ∀ v, .assigned v ∈ script.references →
        (s.run t fps).2.stage.valueOf v = (solo.run t fps).2.stage.valueOf v) scene.scripts solos := by
  obtain ⟨solos, hsolos, hall⟩ := exists_mapM_eq_ok fun script hscript => new_only h hscript
  have hsafe := safe_of_new h
  have hsolosSafe : ∀ solo ∈ solos, solo.Safe := fun solo hsolo => by
    obtain ⟨script, -, hnew⟩ := exists_of_mem_mapM hsolos solo hsolo
    exact safe_of_new hnew
  obtain ⟨state, hopening⟩ := opening h
  have hstart : Ensemble s.stage scene.scripts s.context.runner.roots solos := by
    rw [hopening.stage]
    refine .start (Stage.ready_initial state start) (fun script hscript => ?_) hopening.roots ?_
    · exact (enter_emitted (hopening.emitted script hscript) (Stage.ready_initial state start)).1
    · refine hall.imp fun script solo hnew => ?_
      obtain ⟨state', halone⟩ := opening hnew
      obtain rfl : state = state' := by simpa using hopening.declared.symm.trans halone.declared
      exact ⟨halone.stage, halone.roots⟩
  refine ⟨solos, hsolos, fun fps t => ?_⟩
  obtain ⟨hsafe', hensemble⟩ := hstart.steps hsafe hapart (1.0 / fps) t
  have hruns : solos.map (step (1.0 / fps))^[t] = solos.map fun solo => (solo.run t fps).2 :=
    List.map_congr_left fun solo hsolo => (run_eq_iterate (hsolosSafe solo hsolo) t fps).symm
  rw [← run_eq_iterate hsafe, hruns] at hensemble
  rw [← run_eq_iterate hsafe] at hsafe'
  constructor
  · obtain ⟨added, hlines, hadded, -⟩ := hensemble.step hsafe' hapart (1.0 / fps)
    refine ⟨added, ?_, ?_⟩
    · rw [Adds, run_succ hsafe]
      exact hadded
    · have hsteps := (List.forall₂_and_left _ _).mpr ⟨hsolosSafe, List.forall₂_map_left_iff.mp hlines⟩
      refine hsteps.imp fun solo lines ⟨hsolo, hline⟩ => ⟨?_, fun hidle => ?_⟩
      · rw [Adds, run_succ hsolo]
        exact hline
      · rw [step_idle hidle] at hline
        exact List.append_right_eq_self.mp hline.symm
  · have hvalues := List.forall₂_map_right_iff.mp hensemble.values
    exact hvalues.imp fun script solo hv v hassigned => hv v (Or.inl hassigned)

/-- A scene of two scripts: one counts laps, and the other greets and then waits for a change of mood. -/
def duet : Scene where
  initial := ((∅ : Dictionary Literal).insert "laps" (.integer 0)).insert "mood" (.text "calm")
  scripts := [{ name := "count", steps := [.repeatForever [.change "laps" 1.0, .log "lap", .wait 0.5]] },
    { name := "greet", steps := [.say "hello" 0.0, .waitUntil { var := "mood", value := .text "merry" }, .log "bye"] }]

/-- Two scripts apart from each other, together and alone. -/
theorem scripts_independent_duet : ∃ s, new duet 0.0 = .ok s ∧ duet.scripts.Pairwise Script.Apart ∧
    ∃ solos, duet.scripts.mapM (fun script => new (duet.only script) 0.0) = .ok solos ∧ ∀ fps t,
      ∃ added : List (List String), s.Adds fps t added.reverse.flatten ∧
        List.Forall₂ (fun solo lines => solo.Adds fps t lines) solos added := by
  obtain ⟨built, hbuild⟩ : ∃ built, duet.build Stage.handle = .ok built := Scene.build_ok (by decide) (by decide)
  obtain ⟨s, hs⟩ := new_ok_of_build hbuild 0.0
  have hapart : duet.scripts.Pairwise Script.Apart := by
    simp [duet, Script.Apart, Mentioned, Script.references, Step.referencesAll, Step.references]
  obtain ⟨solos, hsolos, hruns⟩ := scripts_independent hs hapart
  refine ⟨s, hs, hapart, solos, hsolos, fun fps t => ?_⟩
  obtain ⟨⟨added, hadds, halone⟩, -⟩ := hruns fps t
  exact ⟨added, hadds, halone.imp fun _ _ h => h.1⟩

end Simulation

end BlockScript
