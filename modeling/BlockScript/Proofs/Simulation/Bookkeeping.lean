import BlockScript.Proofs.Runner.Leaving
import BlockScript.Proofs.Simulation.Loading
import BlockScript.Proofs.Simulation.Splitting

/-!
# The books of a simulation

Two records tell what is alive in a simulation: the list of scripts with the ids of their roots, and the registry of the runner. All that
a run asks of the runner are ticks (`runRequests`), and a tick only takes roots out, so what is registered is always among what is
recorded, and a script is listed as running exactly if its root has not left (`Books`). A run counts its ticks (`RunAccount`). Shutting
down cancels every root that is left before it releases the context. The built-in leaves do not show this, since they do nothing when they
are exited or destroyed; so `ShutDown` says it of the simulation with its roots under observation, which is shut down by the same function.
-/

namespace BlockScript

/-- Ticks only take roots out. -/
theorem Runner.served_ids {β : Type u} {σ : Type v} [Block β σ] {requests : List (Request β × σ)}
    (h : ∀ x ∈ requests, ∃ dt, x.1 = .process dt) (r : Runner β) : (r.served requests).ids.Sublist r.ids := by
  induction requests generalizing r with
  | nil => exact List.Sublist.refl _
  | cons x requests ih =>
    obtain ⟨q, w⟩ := x
    obtain ⟨⟨dt, rfl⟩, hlater⟩ := List.forall_mem_cons.mp h
    have hids := (Request.process dt).serve_ids r w
    rw [show (Request.process dt).issues r w = none from rfl, Option.toList_none, List.append_nil] at hids
    exact (ih hlater _).trans hids

namespace Simulation

/-! ## The ticks of a run -/

/-- The requests that a number of ticks at most make of the runner. They end as the ticks do. -/
def ticksRequests (delta : Float) : Nat → SceneSimulation → List (Request (BuiltIn Stage) × Stage)
  | 0, _ => []
  | n + 1, s =>
    if s.context.runner.isIdle then []
    else (.process delta, s.stage.modifyConsole (·.advance delta)) ::
      match s.tick delta with
      | (.error _, _) => []
      | (.ok (), s) => ticksRequests delta n s

/-- The requests that a run makes of the runner. -/
def runRequests (s : SceneSimulation) (ticks : Nat) (fps : Float) : List (Request (BuiltIn Stage) × Stage) :=
  ticksRequests (1.0 / fps) ticks s

/-- The requests that a series of runs makes of the runner. -/
def runsRequests (s : SceneSimulation) : List (Nat × Float) → List (Request (BuiltIn Stage) × Stage)
  | [] => []
  | (ticks, fps) :: calls => s.runRequests ticks fps ++ (s.run ticks fps).2.runsRequests calls

/-- Ticks request nothing but ticks. -/
theorem ticksRequests_process (delta : Float) (n : Nat) (s : SceneSimulation) :
    ∀ x ∈ ticksRequests delta n s, x.1 = .process delta := by
  induction n generalizing s with
  | zero => exact List.forall_mem_nil _
  | succ n ih =>
    rw [ticksRequests]
    split
    · exact List.forall_mem_nil _
    · refine List.forall_mem_cons.mpr ⟨rfl, ?_⟩
      split
      · exact List.forall_mem_nil _
      · exact ih _

/-- The runner after a number of ticks has served their requests, and nothing was recorded. -/
theorem runTicks_served (delta : Float) (ran n : Nat) (s : SceneSimulation) :
    (runTicks delta ran n s).2.context.runner = s.context.runner.served (ticksRequests delta n s) ∧
      (runTicks delta ran n s).2.scripts = s.scripts := by
  induction n generalizing s ran with
  | zero => exact ⟨rfl, rfl⟩
  | succ n ih =>
    rw [runTicks, ticksRequests]
    by_cases hidle : s.context.runner.isIdle = true
    · rw [if_pos hidle, if_pos hidle]
      exact ⟨rfl, rfl⟩
    · rw [if_neg hidle, if_neg hidle]
      have hrunner : (s.tick delta).2.context.runner =
          ((Request.process delta).serve s.context.runner (s.stage.modifyConsole (·.advance delta))).1 := rfl
      have hscripts : (s.tick delta).2.scripts = s.scripts := rfl
      rcases htick : s.tick delta with ⟨e | ⟨⟩, s'⟩ <;> rw [htick] at hrunner hscripts
      · exact ⟨hrunner, hscripts⟩
      · obtain ⟨hserved, hsame⟩ := ih (ran + 1) s'
        rw [Runner.served, ← hrunner]
        exact ⟨hserved, hsame.trans hscripts⟩

/-- Ticks that all ended well: how many there are, why there are not more, and where they lead. -/
theorem runTicks_count {delta : Float} {ran ran' n : Nat} {s s' : SceneSimulation} (h : runTicks delta ran n s = (.ok ran', s')) :
    ran' = ran + (ticksRequests delta n s).length ∧ (ticksRequests delta n s).length ≤ n ∧
      ((ticksRequests delta n s).length < n → s'.context.runner.isIdle = true) ∧
      s' = (fun u => (u.tick delta).2)^[(ticksRequests delta n s).length] s := by
  induction n generalizing s ran with
  | zero =>
    cases h
    exact ⟨rfl, Nat.le_refl 0, fun hlt => absurd hlt (Nat.lt_irrefl 0), rfl⟩
  | succ n ih =>
    rw [runTicks] at h
    rw [ticksRequests]
    by_cases hidle : s.context.runner.isIdle = true
    · rw [if_pos hidle] at h ⊢
      cases h
      exact ⟨rfl, Nat.zero_le _, fun _ => hidle, rfl⟩
    · rw [if_neg hidle] at h ⊢
      rcases htick : s.tick delta with ⟨e | ⟨⟩, u⟩ <;> rw [htick] at h
      · cases (Prod.mk.inj h).1
      · obtain ⟨hran, hle, hearly, hlast⟩ := ih h
        have hu : u = (s.tick delta).2 := by rw [htick]
        simp only [List.length_cons, Function.iterate_succ_apply, ← hu]
        exact ⟨by omega, by omega, fun hlt => hearly (by omega), hlast⟩

/-- A run serves its ticks, and keeps the record of scripts. -/
theorem run_served (s : SceneSimulation) (ticks : Nat) (fps : Float) :
    (s.run ticks fps).2.context.runner = s.context.runner.served (s.runRequests ticks fps) ∧
      (s.run ticks fps).2.scripts = s.scripts := by
  have hserved := runTicks_served (1.0 / fps) 0 ticks s
  unfold run
  rcases hticks : runTicks (1.0 / fps) 0 ticks s with ⟨e | ran, s'⟩ <;> rw [hticks] at hserved
  · exact hserved
  · exact hserved

/-- Runs serve their ticks, and keep the record of scripts. -/
theorem afterRuns_served (calls : List (Nat × Float)) (s : SceneSimulation) :
    (s.afterRuns calls).context.runner = s.context.runner.served (s.runsRequests calls) ∧
      (s.afterRuns calls).scripts = s.scripts ∧ ∀ x ∈ s.runsRequests calls, ∃ delta, x.1 = .process delta := by
  induction calls generalizing s with
  | nil => exact ⟨rfl, rfl, List.forall_mem_nil _⟩
  | cons call calls ih =>
    obtain ⟨hrunner, hscripts⟩ := s.run_served call.1 call.2
    obtain ⟨hserved, hsame, hticks⟩ := ih (s.run call.1 call.2).2
    refine ⟨?_, hsame.trans hscripts, ?_⟩
    · rw [runsRequests, Runner.served_append, ← hrunner]
      exact hserved
    · refine List.forall_mem_append.mpr ⟨fun x hx => ⟨_, ticksRequests_process _ _ _ x hx⟩, hticks⟩

/-! ## The books -/

open scoped Classical in
/-- The books of a simulation that was loaded from a scene and has made some requests of its runner since. -/
structure Books (scene : Scene) (loaded now : SceneSimulation) (requests : List (Request (BuiltIn Stage) × Stage)) : Prop where
  ticks : ∀ x ∈ requests, ∃ delta, x.1 = .process delta
  served : now.context.runner = loaded.context.runner.served requests
  scripts : now.scripts = (scene.scripts.map (·.name)).zipIdx
  /-- The ids that are registered are some of those that are recorded, in the same order. -/
  registered : now.context.runner.ids.Sublist (now.scripts.map (·.2))
  /-- The scripts that are listed as running are those whose roots have not left in a tick, in order of declaration. -/
  running : now.runningScripts =
    ((scene.scripts.map (·.name)).zipIdx.filter fun x => ¬LeavesIn x.2 loaded.context.runner requests).map (·.1)
  active : now.runningScripts.length = now.context.runner.size

/-- No root is recorded for two scripts. -/
theorem nodup_recorded {s : SceneSimulation} {names : List String} (h : s.scripts = names.zipIdx) : (s.scripts.map (·.2)).Nodup := by
  rw [h, List.zipIdx_map_snd]
  exact List.nodup_range'

/-- Where all that is registered is recorded, as many scripts are listed as running as roots are registered. -/
theorem length_runningScripts {s : SceneSimulation} (hnodup : (s.scripts.map (·.2)).Nodup)
    (h : s.context.runner.ids.Sublist (s.scripts.map (·.2))) : s.runningScripts.length = s.context.runner.size := by
  have hperm : ((s.scripts.map (·.2)).filter fun id => s.context.runner.contains id).Perm s.context.runner.ids := by
    refine (List.perm_ext_iff_of_nodup (hnodup.filter _) (hnodup.sublist h)).mpr fun id => ?_
    rw [List.mem_filter, Runner.contains_iff_mem]
    exact ⟨And.right, fun hid => ⟨h.subset hid, hid⟩⟩
  have hlength := hperm.length_eq
  rw [List.filter_map, List.length_map] at hlength
  rw [runningScripts, List.length_map]
  exact hlength.trans (List.length_map ..)

/-- The books of a simulation that was loaded from a scene and has made no tick: what is registered is what is recorded. -/
structure FreshBooks (scene : Scene) (s : SceneSimulation) : Prop where
  scripts : s.scripts = (scene.scripts.map (·.name)).zipIdx
  recorded : s.context.runner.ids = s.scripts.map (·.2)
  ascending : s.context.runner.Ascending
  issued : s.context.runner.Issued

/-- The books of a new simulation are fresh. -/
theorem freshBooks {scene : Scene} {start : Float} {s : SceneSimulation} (h : new scene start = .ok s) : FreshBooks scene s := by
  obtain ⟨state, -, rfl, -⟩ := eq_begun_of_new h
  obtain ⟨hids, hrecorded⟩ := ids_begun scene state start
  refine ⟨rfl, hids.trans hrecorded.symm, ?_, ?_⟩
  · rw [Runner.Ascending, hids]
    exact List.pairwise_lt_range'
  · intro x hx
    have hid : x.1 ∈ List.range' 0 scene.scripts.length := hids ▸ List.mem_map_of_mem hx
    rw [List.mem_range'_1] at hid
    have hnext : (begun scene state start).context.runner.nextId = scene.scripts.length := rfl
    omega

namespace FreshBooks

variable {scene : Scene} {s : SceneSimulation}

/-- A script that was recorded is registered until its root leaves. -/
theorem contains_served (hs : FreshBooks scene s) (requests : List (Request (BuiltIn Stage) × Stage)) :
    ∀ x ∈ s.scripts, (s.context.runner.served requests).contains x.2 = true ↔ ¬LeavesIn x.2 s.context.runner requests := by
  intro x hx
  have hmem : x.2 ∈ s.context.runner.ids := hs.recorded ▸ List.mem_map_of_mem hx
  obtain ⟨y, hy, hid⟩ := List.mem_map.mp hmem
  have hbelow : x.2 < s.context.runner.nextId := hid ▸ hs.issued y hy
  rw [Runner.served_contains hs.ascending hs.issued hbelow, and_iff_right ((Runner.contains_iff_mem _ _).mpr hmem)]

theorem books (hs : FreshBooks scene s) (calls : List (Nat × Float)) :
    Books scene s (s.afterRuns calls) (s.runsRequests calls) := by
  obtain ⟨hserved, hscripts, hticks⟩ := afterRuns_served calls s
  have hnames := hscripts.trans hs.scripts
  have hsublist : (s.afterRuns calls).context.runner.ids.Sublist ((s.afterRuns calls).scripts.map (·.2)) := by
    rw [hserved, hscripts, ← hs.recorded]
    exact Runner.served_ids hticks _
  exact {
    ticks := hticks
    served := hserved
    scripts := hnames
    registered := hsublist
    running := by
      classical
      rw [runningScripts, hscripts, ← hs.scripts, hserved]
      refine congrArg (List.map fun x : String × Nat => x.1) (List.filter_congr fun x hx => ?_)
      rw [Bool.eq_iff_iff, decide_eq_true_iff]
      exact hs.contains_served _ x hx
    active := length_runningScripts (nodup_recorded hnames) hsublist }

end FreshBooks

/-! ## One more run -/

/-- The account that a run gives of itself: how many ticks it made and how many scripts were left. -/
structure RunAccount (s : SceneSimulation) (ticks : Nat) (fps : Float) (summary : Summary) : Prop where
  answer : (s.run ticks fps).1 = .ok summary
  /-- All that the run asks of the runner are ticks of one length, and it counts them. -/
  requests : ∀ x ∈ s.runRequests ticks fps, x.1 = .process (1.0 / fps)
  served : (s.run ticks fps).2.context.runner = s.context.runner.served (s.runRequests ticks fps)
  counted : summary.ticks = (s.runRequests ticks fps).length
  /-- The run leads where its ticks lead. -/
  made : (s.run ticks fps).2 = (fun u => (u.tick (1.0 / fps)).2)^[summary.ticks] s
  within : summary.ticks ≤ ticks
  active : summary.active = (s.run ticks fps).2.runningScripts.length
  /-- A run that stops early leaves no script. -/
  early : summary.ticks < ticks → summary.active = 0

/-- One more run comes after those before. -/
theorem afterRuns_concat (s : SceneSimulation) (calls : List (Nat × Float)) (ticks : Nat) (fps : Float) :
    s.afterRuns (calls ++ [(ticks, fps)]) = ((s.afterRuns calls).run ticks fps).2 := List.foldl_append

/-- Every run of a new simulation, after any runs, is accounted for. -/
theorem exists_runAccount {scene : Scene} {start : Float} {s : SceneSimulation} (h : new scene start = .ok s) (calls : List (Nat × Float))
    (ticks : Nat) (fps : Float) : ∃ summary, RunAccount (s.afterRuns calls) ticks fps summary := by
  have hbooks := (freshBooks h).books (calls ++ [(ticks, fps)])
  rw [afterRuns_concat] at hbooks
  obtain ⟨⟨summary, hanswer⟩, -⟩ := run_safe (afterRuns_safe (safe_of_new h) calls) ticks fps
  obtain ⟨hticks, hactive, -⟩ := run_eq_ok hanswer
  obtain ⟨hcount, hle, hearly, hmade⟩ := runTicks_count hticks
  have hcounted : summary.ticks = ((s.afterRuns calls).runRequests ticks fps).length := hcount.trans (Nat.zero_add _)
  refine ⟨summary, hanswer, ticksRequests_process _ _ _, (run_served _ _ _).1, hcounted, ?_, ?_, ?_, ?_⟩
  · rw [hcounted]
    exact hmade
  · rw [hcounted]
    exact hle
  · rw [hactive, hbooks.active]
  · intro hlt
    rw [hcounted] at hlt
    rw [hactive, Runner.size, List.length_eq_zero_iff]
    exact List.isEmpty_iff.mp (hearly hlt)

/-! ## Shutting down -/

section

variable {α σ : Type} [Block α σ]

/-- Cancels a script. -/
def cancelScript (s : Simulation α σ) (x : String × Nat) : Simulation α σ :=
  { s with context := (s.context.cancel x.2 s.stage).2.1, stage := (s.context.cancel x.2 s.stage).2.2 }

/-- Cancelling the scripts cancels the ids that were recorded, and does nothing else. -/
theorem cancelAll_eq (s : Simulation α σ) : s.cancelAll = { s with
    context := { s.context with runner := (s.context.runner.cancelEach (s.scripts.map (·.2)) s.stage).1 }
    stage := (s.context.runner.cancelEach (s.scripts.map (·.2)) s.stage).2 } := by
  suffices h : ∀ (scripts : List (String × Nat)) (t : Simulation α σ), scripts.foldl cancelScript t = { t with
      context := { t.context with runner := (t.context.runner.cancelEach (scripts.map (·.2)) t.stage).1 }
      stage := (t.context.runner.cancelEach (scripts.map (·.2)) t.stage).2 } from h s.scripts s
  intro scripts
  induction scripts with
  | nil => exact fun _ => rfl
  | cons x scripts ih => exact fun t => ih (t.cancelScript x)

/-- Shutting down retires every root that is registered, in order, and empties the handle, where all that is registered is recorded. -/
theorem shutdown_eq {s : Simulation α σ} (hnodup : (s.scripts.map (·.2)).Nodup)
    (h : s.context.runner.ids.Sublist (s.scripts.map (·.2))) : s.shutdown = { s with
      context := { s.context with runner := ⟨[], s.context.runner.nextId⟩ }
      stage := s.context.actions.clear (s.context.runner.roots.foldl (fun w x => Runner.retire x.2 w) s.stage) } := by
  rw [shutdown, cancelAll_eq, Runner.cancelEach_eq hnodup h s.stage]
  rfl

end

end Simulation

section

variable {κ : Type w} {σ : Type v}

/-- Lets a provider act in the world of an observation. -/
def Provider.observe (p : Provider σ) : Provider (Observation κ σ) where
  log message o := { o with world := p.log message o.world }
  say message seconds o := { o with world := p.say message seconds o.world }
  playSound name volume o := { o with world := p.playSound name volume o.world }
  now o := ((p.now o.world).1, { o with world := (p.now o.world).2 })

/-- The slot of the world of an observation. -/
def ActionsHandle.observe (h : ActionsHandle σ) : ActionsHandle (Observation κ σ) where
  provider? o := (h.provider? o.world).map Provider.observe
  clear o := { o with world := h.clear o.world }

end

namespace Simulation

/-- A simulation with its roots under observation, each under its id, and nothing observed so far. -/
def observed {α σ : Type} (s : Simulation α σ) : Simulation (Observed Nat (Tree α σ)) (Observation Nat σ) where
  context :=
    { actions := s.context.actions.observe
      runner := ⟨s.context.runner.roots.map fun x => (x.1, .leaf ⟨x.1, x.2⟩), s.context.runner.nextId⟩ }
  stage := ⟨s.stage, []⟩
  scripts := s.scripts
  start := s.start

/-- What shutting down does to the roots that are left. -/
structure ShutDown (s : SceneSimulation) : Prop where
  /-- Every id that was recorded is cancelled, in order, and then the context is released. -/
  cancels : s.shutdown.context.runner = (s.context.runner.cancelEach (s.scripts.map (·.2)) s.stage).1.dispose ∧
    s.shutdown.stage = s.context.actions.clear (s.context.runner.cancelEach (s.scripts.map (·.2)) s.stage).2
  /-- No root is left when the context is released. -/
  left : (s.context.runner.cancelEach (s.scripts.map (·.2)) s.stage).1.roots = []
  /-- The roots that are registered are retired, in order, and the handle is emptied. -/
  stage : s.shutdown.stage = s.context.actions.clear (s.context.runner.roots.foldl (fun w x => Runner.retire x.2 w) s.stage)
  /-- Shut down under observation, every root that is registered is exited once and destroyed once, and receives nothing else. -/
  calls : s.observed.shutdown.stage =
    ⟨s.shutdown.stage, s.context.runner.roots.flatMap fun x => [(x.1, .exit), (x.1, .destroy)]⟩
  emptied : s.shutdown.context.runner = ⟨[], s.context.runner.nextId⟩
  /-- The record of the scripts stays as it is. -/
  recorded : s.shutdown.scripts = s.scripts

/-- What the roots of a simulation under observation receive that are retired one after another. -/
theorem retire_roots_observed (s : SceneSimulation) :
    s.observed.context.runner.roots.foldl (fun o x => Runner.retire x.2 o) s.observed.stage =
      ⟨s.context.runner.roots.foldl (fun w x => Runner.retire x.2 w) s.stage,
        s.context.runner.roots.flatMap fun x => [(x.1, .exit), (x.1, .destroy)]⟩ := by
  -- A root that is a leaf is retired as the block that it holds.
  have hleaf := Runner.retire_observed s.context.runner.roots s.stage []
  rw [observeRoots, List.foldl_map] at hleaf
  rw [observed, List.foldl_map]
  exact hleaf

/-- Where the roots that are left are recorded, in order and once each, shutting down takes all of them out. -/
theorem shutDown {s : SceneSimulation} (hnodup : (s.scripts.map (·.2)).Nodup) (h : s.context.runner.ids.Sublist (s.scripts.map (·.2))) :
    ShutDown s := by
  have hids : s.observed.context.runner.ids = s.context.runner.ids := by simp [Runner.ids, observed, Function.comp_def]
  have hcalls := shutdown_eq (s := s.observed) hnodup (hids ▸ h)
  rw [retire_roots_observed] at hcalls
  have heach := Runner.cancelEach_eq hnodup h s.stage
  have hshut := shutdown_eq hnodup h
  exact {
    cancels := by
      rw [hshut, heach]
      exact ⟨rfl, rfl⟩
    left := by rw [heach]
    stage := by rw [hshut]
    calls := by
      rw [hcalls, hshut]
      rfl
    emptied := by rw [hshut]
    recorded := by rw [hshut] }

/-- The slot of a simulated scene is the one that holds its console. -/
theorem actions_afterRuns {scene : Scene} {start : Float} {s : SceneSimulation} (h : new scene start = .ok s)
    (calls : List (Nat × Float)) : (s.afterRuns calls).context.actions = Stage.handle := by
  obtain ⟨state, -, rfl, -⟩ := eq_begun_of_new h
  exact afterRuns_keeps (P := fun s => s.context.actions = Stage.handle) (fun _ _ hs => hs) rfl calls

/-- Shutting down a simulated scene takes its console out of the slot, and neither writes nor assigns anything. -/
theorem shutdown_afterRuns {scene : Scene} {start : Float} {s : SceneSimulation} (h : new scene start = .ok s)
    (calls : List (Nat × Float)) :
    (s.afterRuns calls).shutdown.stage = { (s.afterRuns calls).stage with installed := false } := by
  have hbooks := (freshBooks h).books calls
  have hquiet : ∀ (roots : List (Nat × BuiltIn Stage)) (w : Stage), roots.foldl (fun w x => Runner.retire x.2 w) w = w := by
    intro roots w
    simp only [BuiltIn.retire_eq, List.foldl_fixed]
  rw [shutdown_eq (nodup_recorded hbooks.scripts) hbooks.registered, actions_afterRuns h calls, hquiet]
  rfl

/-- The books of a simulation agree. After any runs of a scene that was accepted: what the runner has registered is among what was
recorded, in the same order; the scripts listed as running are those whose roots have not completed in a tick, in order of declaration,
and they are as many as there are roots. The next run, which ends well, asks nothing of the runner but ticks; it tells how many it made,
never more than it was asked for, and how many scripts are listed as running after it, which are none if it made fewer ticks than it was
asked for. And shutting down at this moment cancels all that was recorded and then releases the context: every root that is left is exited
and destroyed, once, no root that has left receives anything, and no root is left to be dropped without being exited. -/
theorem books_agree {scene : Scene} {start : Float} {s : SceneSimulation} (h : new scene start = .ok s) (calls : List (Nat × Float)) :
    Books scene s (s.afterRuns calls) (s.runsRequests calls) ∧
      (∀ ticks fps, ∃ summary, RunAccount (s.afterRuns calls) ticks fps summary) ∧ ShutDown (s.afterRuns calls) := by
  have hbooks := (freshBooks h).books calls
  exact ⟨hbooks, exists_runAccount h calls, shutDown (nodup_recorded hbooks.scripts) hbooks.registered⟩

/-- One script is over after its second tick, and the other never is. -/
def guests : Scene where
  scripts :=
    [{ name := "leaver", steps := [.log "hello", .log "bye"] }, { name := "stayer", steps := [.repeatForever [.log "still here"]] }]

/-- Two guests, of whom one leaves within three ticks. -/
theorem books_agree_guests : ∃ s, new guests 0.0 = .ok s ∧ Books guests s (s.afterRuns [(3, 30.0)]) (s.runsRequests [(3, 30.0)]) ∧
    (s.afterRuns [(3, 30.0)]).runningScripts = ["stayer"] ∧
    (∀ ticks fps, ∃ summary, RunAccount (s.afterRuns [(3, 30.0)]) ticks fps summary) ∧ ShutDown (s.afterRuns [(3, 30.0)]) := by
  obtain ⟨s, hs⟩ : ∃ s, new guests 0.0 = .ok s := ⟨_, rfl⟩
  obtain ⟨hbooks, hruns, hshut⟩ := books_agree hs [(3, 30.0)]
  exact ⟨s, hs, hbooks, by cases hs; rfl, hruns, hshut⟩

end Simulation

end BlockScript
