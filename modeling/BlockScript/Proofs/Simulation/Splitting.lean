import BlockScript.Proofs.Simulation.Independence

/-!
# Runs in parts

A run for some ticks, followed by a run for some more, is one run for all of them, wherever the first part ends (`runTicks_add`). What a
simulation writes is never taken back: its blocks are confined to adding lines, and a tick keeps them so (`Writing`). So what is written
in a few ticks is the beginning of what is written in more (`run_split`).
-/

namespace BlockScript

/-! ## What is written stays -/

/-- The console is installed, and its transcript begins with some lines. -/
structure Stage.Extends (lines : List String) (s : Stage) : Prop where
  ready : s.Ready
  written : lines <+: s.lines

/-- What a confined block calls takes back no line. -/
theorem Confined.extends {γ : Type} {refs : List Reference} {f : Stage → γ × Stage} (h : Confined refs f) {lines : List String}
    {s : Stage} (hs : s.Extends lines) : (f s).2.Extends lines := by
  obtain ⟨-, -, added, hbecame, -⟩ := h s s ⟨hs.ready, hs.ready, rfl, fun _ _ => rfl⟩
  exact ⟨hbecame.ready hs.ready, hs.written.trans (hbecame.lines ▸ List.prefix_append _ _)⟩

/-- Every leaf and every test of a tree is confined, each to references of its own. -/
def Confinement (t : BuiltIn Stage) : Prop :=
  Tree.All (fun b => ∃ refs, Primitive.Confined refs b) (fun k => ∃ refs, LoopKind.Confined refs k) t

/-- No call on a tree of confined blocks takes back a line. -/
theorem confinement_upholds (lines : List String) : Upholds Confinement (Stage.Extends lines) fun _ => True := by
  refine Tree.upholds (Primitive.upholds_of_lasting trivial ?_ ?_) trivial ?_
  · rintro b c hbc ⟨refs, hb⟩
    exact ⟨refs, hb.of_akin hbc⟩
  · rintro b ⟨refs, hb⟩
    cases b with
    | execute callback _ => exact fun s hs => ⟨trivial, BlockScript.Confined.extends hb hs⟩
    | wait _ _ _ clock => exact fun s hs => ⟨trivial, BlockScript.Confined.extends hb hs⟩
    | condition test _ => exact fun s hs => BlockScript.Confined.extends hb hs
  · rintro k ⟨refs, hk⟩ s hs
    exact BlockScript.Confined.extends hk hs

namespace Simulation

/-- The console is installed, and all roots are trees of confined blocks. -/
structure Writing (s : SceneSimulation) : Prop where
  ready : s.stage.Ready
  roots : ∀ x ∈ s.context.runner.roots, Confinement x.2

/-- A new simulation only writes to its transcript. -/
theorem writing_of_new {scene : Scene} {start : Float} {s : SceneSimulation} (h : new scene start = .ok s) : s.Writing := by
  obtain ⟨state, hopening⟩ := opening h
  have hready : (Stage.initial state start).Ready := Stage.ready_initial state start
  refine ⟨hopening.stage ▸ hready, fun x hx => ?_⟩
  have hroot : x.2 ∈ s.context.runner.roots.map (·.2) := List.mem_map_of_mem hx
  rw [hopening.roots] at hroot
  obtain ⟨script, -, hscript⟩ := List.mem_map.mp hroot
  have hconfined : Confinement (script.translate Stage.handle) :=
    script.translate_confined.mono (fun _ hb => ⟨_, hb⟩) fun _ hk => ⟨_, hk⟩
  rw [← hscript]
  exact ((confinement_upholds []).enter _ _ hconfined ⟨hready, List.nil_prefix⟩).2.1

/-- A tick takes back no line, however it ends. -/
theorem tick_writing {s : SceneSimulation} (hs : s.Writing) (delta : Float) :
    (s.tick delta).2.Writing ∧ s.stage.lines <+: (s.tick delta).2.stage.lines := by
  have hstage : (s.stage.modifyConsole (·.advance delta)).Extends s.stage.lines := ⟨hs.ready, List.prefix_refl _⟩
  obtain ⟨-, hroots, hextends⟩ :=
    Runner.advance_upholds (confinement_upholds s.stage.lines) trivial delta hs.roots hstage
  exact ⟨⟨hextends.ready, hroots⟩, hextends.written⟩

/-- A run only adds to the transcript. -/
theorem run_writing {s : SceneSimulation} (hs : s.Writing) (ticks : Nat) (fps : Float) :
    (s.run ticks fps).2.Writing ∧ s.stage.lines <+: (s.run ticks fps).2.stage.lines := by
  refine run_keeps (P := fun t => t.Writing ∧ s.stage.lines <+: t.stage.lines) ?_ ⟨hs, List.prefix_refl _⟩ ticks
  rintro t ⟨hwriting, hprefix⟩
  obtain ⟨hnext, hlonger⟩ := tick_writing hwriting (1.0 / fps)
  exact ⟨hnext, hprefix.trans hlonger⟩

/-- A simulation that only writes to its transcript does so after any runs. -/
theorem afterRuns_writing {s : SceneSimulation} (hs : s.Writing) (calls : List (Nat × Float)) : (s.afterRuns calls).Writing :=
  afterRuns_keeps (P := Writing) (fun delta _ hs => (tick_writing hs delta).1) hs calls

/-! ## One run in two parts -/

/-- Once no root is left, a run makes no tick. -/
theorem runTicks_idle {s : SceneSimulation} (h : s.context.runner.isIdle = true) (delta : Float) (ran budget : Nat) :
    runTicks delta ran budget s = (.ok ran, s) := by
  cases budget with
  | zero => rfl
  | succ budget => rw [runTicks, if_pos h]

/-- After its first ticks, a run goes on as one for the ticks that remain. -/
theorem runTicks_add {s s' : SceneSimulation} {delta : Float} {ran ran' m : Nat} (h : runTicks delta ran m s = (.ok ran', s')) (n : Nat) :
    runTicks delta ran (m + n) s = runTicks delta ran' n s' := by
  induction m generalizing s ran with
  | zero =>
    obtain ⟨hran, rfl⟩ := Prod.mk.inj h
    cases hran
    rw [Nat.zero_add]
  | succ m ih =>
    rw [Nat.add_right_comm, runTicks]
    rw [runTicks] at h
    by_cases hidle : s.context.runner.isIdle = true
    · rw [if_pos hidle] at h ⊢
      obtain ⟨hran, rfl⟩ := Prod.mk.inj h
      cases hran
      rw [runTicks_idle hidle]
    · rw [if_neg hidle] at h ⊢
      rcases htick : s.tick delta with ⟨e | ⟨⟩, s''⟩ <;> rw [htick] at h
      · cases (Prod.mk.inj h).1
      · exact ih h

/-- The ticks that were made before a run are only counted. -/
theorem runTicks_ran (delta : Float) (before ran budget : Nat) (s : SceneSimulation) :
    runTicks delta (before + ran) budget s =
      ((runTicks delta ran budget s).1.map (before + ·), (runTicks delta ran budget s).2) := by
  induction budget generalizing s ran with
  | zero => rfl
  | succ budget ih =>
    rw [runTicks, runTicks]
    split
    · rfl
    · rcases s.tick delta with ⟨e | ⟨⟩, s'⟩
      · rfl
      · exact ih (ran + 1) s'

/-- What a run that ended well answers. -/
theorem run_eq_ok {s : SceneSimulation} {ticks : Nat} {fps : Float} {summary : Summary} (h : (s.run ticks fps).1 = .ok summary) :
    runTicks (1.0 / fps) 0 ticks s = (.ok summary.ticks, (s.run ticks fps).2) ∧
      summary.active = (s.run ticks fps).2.context.runner.size ∧
      summary.elapsed = (s.run ticks fps).2.stage.console.clock.now - (s.run ticks fps).2.start := by
  rcases hticks : runTicks (1.0 / fps) 0 ticks s with ⟨e | ran, s'⟩
  · simp [run, hticks] at h
  · have hrun : s.run ticks fps = (.ok ⟨ran, s'.context.runner.size, s'.stage.console.clock.now - s'.start⟩, s') := by
      rw [run, hticks]
    rw [hrun] at h ⊢
    cases h
    exact ⟨rfl, rfl, rfl⟩

/-- A run in two parts is one run. -/
theorem run_add {s : SceneSimulation} {fps : Float} {m n : Nat} {first second : Summary} (hfirst : (s.run m fps).1 = .ok first)
    (hsecond : ((s.run m fps).2.run n fps).1 = .ok second) :
    s.run (m + n) fps = (.ok { ticks := first.ticks + second.ticks, active := second.active, elapsed := second.elapsed },
      ((s.run m fps).2.run n fps).2) := by
  obtain ⟨hticks, -, -⟩ := run_eq_ok hfirst
  obtain ⟨hticks', hactive, helapsed⟩ := run_eq_ok hsecond
  have hall : runTicks (1.0 / fps) 0 (m + n) s = (.ok (first.ticks + second.ticks), ((s.run m fps).2.run n fps).2) := by
    have hran := runTicks_ran (1.0 / fps) first.ticks 0 n (s.run m fps).2
    rw [hticks', Nat.add_zero] at hran
    rw [runTicks_add hticks n, hran]
    rfl
  rw [run, hall, hactive, helapsed]

/-- Splitting a run does not change it. Where a run for `m` ticks ends well, and a run for `n` more after it, the run for all of them
ends well in the very same state, with the ticks of both and with the roots left and the time elapsed of the second. And what a scene
has written after some ticks is the beginning of what it has written after more, from any state that runs have brought it to. -/
theorem run_split :
    (∀ (s : SceneSimulation) (fps : Float) (m n : Nat) (first second : Summary),
      (s.run m fps).1 = .ok first → ((s.run m fps).2.run n fps).1 = .ok second →
      s.run (m + n) fps = (.ok { ticks := first.ticks + second.ticks, active := second.active, elapsed := second.elapsed },
        ((s.run m fps).2.run n fps).2)) ∧
    ∀ (scene : Scene) (start : Float) (s : SceneSimulation), new scene start = .ok s → ∀ calls fps m n, m ≤ n →
      ((s.afterRuns calls).run m fps).2.transcript <+: ((s.afterRuns calls).run n fps).2.transcript := by
  refine ⟨fun s fps m n first second hfirst hsecond => run_add hfirst hsecond, fun scene start s hnew calls fps m n hmn => ?_⟩
  obtain ⟨k, rfl⟩ := Nat.exists_eq_add_of_le hmn
  have hsafe := afterRuns_safe (safe_of_new hnew) calls
  have hwriting := afterRuns_writing (writing_of_new hnew) calls
  generalize s.afterRuns calls = t at hsafe hwriting
  obtain ⟨⟨first, hfirst⟩, hsafe'⟩ := run_safe hsafe m fps
  obtain ⟨⟨second, hsecond⟩, -⟩ := run_safe hsafe' k fps
  rw [run_add hfirst hsecond]
  exact (run_writing (run_writing hwriting m fps).1 k fps).2

/-- Greetings in two ticks and then three, and in five. -/
theorem run_split_greetings : ∃ s first second, new greetings 0.0 = .ok s ∧ (s.run 2 30.0).1 = .ok first ∧
    ((s.run 2 30.0).2.run 3 30.0).1 = .ok second ∧
    s.run (2 + 3) 30.0 = (.ok { ticks := first.ticks + second.ticks, active := second.active, elapsed := second.elapsed },
      ((s.run 2 30.0).2.run 3 30.0).2) ∧
    (s.run 2 30.0).2.transcript <+: (s.run (2 + 3) 30.0).2.transcript := by
  obtain ⟨s, hs⟩ : ∃ s, new greetings 0.0 = .ok s := ⟨_, rfl⟩
  obtain ⟨⟨first, hfirst⟩, hsafe⟩ := run_safe (safe_of_new hs) 2 30.0
  obtain ⟨⟨second, hsecond⟩, -⟩ := run_safe hsafe 3 30.0
  exact ⟨s, first, second, hs, hfirst, hsecond, run_split.1 s 30.0 2 3 first second hfirst hsecond,
    run_split.2 greetings 0.0 s hs [] 30.0 2 (2 + 3) (by decide)⟩

end Simulation

end BlockScript
