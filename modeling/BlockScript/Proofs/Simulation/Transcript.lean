import BlockScript.Proofs.Simulation.Playing
import BlockScript.Proofs.Simulation.Splitting

/-!
# What a simulation writes

A step that acts writes one line, which is known from the step alone (`Step.lines`) and begins with a bracket. No block of a scene can
write anything else, so whatever its runs write are lines of its steps (`transcript_subset`).
-/

namespace BlockScript

namespace Step

mutual

/-- The lines that a step can write, in reading order. -/
def lines : Step → List String
  | say message duration => [Console.sayLine message duration]
  | playSound name volume => [Console.soundLine name volume]
  | log message => [Console.logLine message]
  | enable object => [Console.toggleLine object true]
  | disable object => [Console.toggleLine object false]
  | wait _ | set _ _ | change _ _ | waitUntil _ => []
  | sequence steps => linesAll steps
  | repeatForever body | repeatWhile _ body | repeatUntil _ body => linesAll body
termination_by structural s => s

/-- The lines that some steps can write, in reading order. -/
def linesAll : List Step → List String
  | [] => []
  | s :: rest => lines s ++ linesAll rest
termination_by structural ss => ss

end

end Step

/-- The lines that a scene can write. -/
def Scene.lines (scene : Scene) : List String := scene.scripts.flatMap fun script => Step.linesAll script.steps

/-- A line begins with the name of what was done, in brackets. -/
def Bracketed (line : String) : Prop := line.toList.head? = some '['

theorem bracketed_append {label : String} (h : label.toList.head? = some '[') (text : String) : Bracketed (label ++ text) := by
  rw [Bracketed, String.toList_append, List.head?_append, h, Option.some_or]

/-- The line of a saying is bracketed. -/
theorem bracketed_sayLine (message : String) (duration : Float) : Bracketed (Console.sayLine message duration) := by
  have hlabel : Bracketed ("[say] " ++ message) := bracketed_append rfl message
  rw [Console.sayLine]
  split
  · exact bracketed_append (bracketed_append (bracketed_append hlabel _) _) _
  · exact hlabel

/-- The line of a sound is bracketed. -/
theorem bracketed_soundLine (name : String) (volume : Float) : Bracketed (Console.soundLine name volume) := by
  have hlabel : Bracketed ("[sound] " ++ name) := bracketed_append rfl name
  rw [Console.soundLine]
  split
  · exact hlabel
  · exact bracketed_append (bracketed_append hlabel _) _

mutual

/-- The lines of a step are bracketed. -/
theorem Step.lines_bracketed : ∀ s : Step, ∀ line ∈ s.lines, Bracketed line
  | .say message duration => List.forall_mem_singleton.mpr (bracketed_sayLine message duration)
  | .playSound name volume => List.forall_mem_singleton.mpr (bracketed_soundLine name volume)
  | .log message => List.forall_mem_singleton.mpr (bracketed_append rfl message)
  | .enable object => List.forall_mem_singleton.mpr (bracketed_append rfl object)
  | .disable object => List.forall_mem_singleton.mpr (bracketed_append rfl object)
  | .wait _ | .set _ _ | .change _ _ | .waitUntil _ => nofun
  | .sequence steps => Step.linesAll_bracketed steps
  | .repeatForever body | .repeatWhile _ body | .repeatUntil _ body => Step.linesAll_bracketed body

/-- The lines of steps are bracketed. -/
theorem Step.linesAll_bracketed : ∀ steps : List Step, ∀ line ∈ Step.linesAll steps, Bracketed line
  | [] => nofun
  | s :: rest => List.forall_mem_append.mpr ⟨Step.lines_bracketed s, Step.linesAll_bracketed rest⟩

end

/-- The lines of a scene are bracketed. -/
theorem Scene.lines_bracketed (scene : Scene) : ∀ line ∈ scene.lines, Bracketed line := by
  intro line hline
  obtain ⟨script, -, hmem⟩ := List.mem_flatMap.mp hline
  exact Step.linesAll_bracketed script.steps line hmem

/-- The console is installed, and only some lines were written to it. -/
structure Stage.Tells (lines : List String) (s : Stage) : Prop where
  ready : s.Ready
  written : s.lines ⊆ lines

section

variable {lines : List String} {line : String}

/-- A stage that tells only certain lines still does when one of them is added. -/
theorem Stage.Tells.push {s : Stage} (hs : s.Tells lines) (hline : line ∈ lines) :
    (s.modifyConsole (Console.push line)).Tells lines := by
  refine ⟨hs.ready, ?_⟩
  have hpush : (s.modifyConsole (Console.push line)).lines = s.lines ++ [line] := Array.toList_push
  rw [hpush]
  exact List.append_subset.mpr ⟨hs.written, List.cons_subset.mpr ⟨hline, List.nil_subset _⟩⟩

/-- An action of the console that writes one of the lines. -/
theorem tells_act {action : Provider Stage → Stage → Stage} (hline : line ∈ lines)
    (haction : ∀ s, action (Console.provider Stage.console Stage.modifyConsole) s = s.modifyConsole (Console.push line)) :
    (Primitive.attempt (Stage.handle.act action)).Keeps (Stage.Tells lines) (· = .ok ()) := by
  intro s hs
  have hact : Stage.handle.act action s = (.ok (), s.modifyConsole (Console.push line)) := by
    simp only [ActionsHandle.act, Stage.handle]
    rw [if_pos (show s.installed = true from hs.ready), ← haction]
  rw [hact]
  exact ⟨rfl, hs.push hline⟩

namespace Step

mutual

/-- The blocks of a step write nothing but its lines. -/
theorem translate_tells : ∀ s : Step, s.lines ⊆ lines →
    Infallible (Stage.Tells lines) (s.translate Stage.handle)
  | wait _, _ => .leaf fun s hs => by
    rw [s.currentTime_eq, if_pos (show s.installed = true from hs.ready)]
    exact ⟨rfl, hs⟩
  | say _ _, h => .leaf (tells_act (h List.mem_cons_self) fun _ => rfl)
  | playSound _ _, h => .leaf (tells_act (h List.mem_cons_self) fun _ => rfl)
  | log _, h => .leaf (tells_act (h List.mem_cons_self) fun _ => rfl)
  | enable _, h => .leaf fun _ hs => ⟨rfl, Stage.Tells.push ⟨hs.ready, hs.written⟩ (h List.mem_cons_self)⟩
  | disable _, h => .leaf fun _ hs => ⟨rfl, Stage.Tells.push ⟨hs.ready, hs.written⟩ (h List.mem_cons_self)⟩
  | set _ _, _ => .leaf fun _ hs => ⟨rfl, hs.ready, hs.written⟩
  | change _ _, _ => .leaf fun _ hs => ⟨rfl, hs.ready, hs.written⟩
  | waitUntil _, _ => .leaf fun _ hs => hs
  | sequence steps, h => .sequence (translateAll_tells steps h)
  | repeatForever body, h => .loop (fun _ hs => hs) (translateAll_tells body h)
  | repeatWhile _ body, h => .loop (fun _ hs => hs) (translateAll_tells body h)
  | repeatUntil _ body, h => .loop (fun _ hs => hs) (translateAll_tells body h)

/-- The blocks of some steps write nothing but their lines. -/
theorem translateAll_tells : ∀ steps : List Step, linesAll steps ⊆ lines →
    ∀ t ∈ translateAll Stage.handle steps, Infallible (Stage.Tells lines) t
  | [], _ => nofun
  | s :: rest, h => by
    obtain ⟨hs, hrest⟩ := List.append_subset.mp h
    exact List.forall_mem_cons.mpr ⟨translate_tells s hs, translateAll_tells rest hrest⟩

end

end Step

end

namespace Simulation

/-- Only some lines were written, and no root can write any other. -/
structure Telling (lines : List String) (s : SceneSimulation) : Prop where
  stage : s.stage.Tells lines
  roots : ∀ x ∈ s.context.runner.roots, Infallible (Stage.Tells lines) x.2

variable {scene : Scene} {lines : List String} {start : Float} {s : SceneSimulation}

/-- A new simulation tells only lines of its scene. -/
theorem telling_of_new (h : new scene start = .ok s) : s.Telling scene.lines := by
  obtain ⟨state, hopening⟩ := opening h
  have hinitial : (Stage.initial state start).Tells scene.lines := ⟨Stage.ready_initial state start, List.nil_subset _⟩
  refine ⟨hopening.stage ▸ hinitial, fun x hx => ?_⟩
  have hroot : x.2 ∈ s.context.runner.roots.map (·.2) := List.mem_map_of_mem hx
  rw [hopening.roots] at hroot
  obtain ⟨script, hscript, hentered⟩ := List.mem_map.mp hroot
  have hlines : Step.linesAll script.steps ⊆ scene.lines := fun _ hline => List.mem_flatMap.mpr ⟨script, hscript, hline⟩
  have htells : Infallible (Stage.Tells scene.lines) (script.translate Stage.handle) :=
    .sequence (Step.translateAll_tells script.steps hlines)
  rw [← hentered]
  exact ((infallible_upholds _).enter _ _ htells hinitial).2.1

/-- After a tick a simulation still tells only lines of its scene. -/
theorem tick_telling (hs : s.Telling lines) (delta : Float) : (s.tick delta).2.Telling lines := by
  have hstage : (s.stage.modifyConsole (·.advance delta)).Tells lines := ⟨hs.stage.ready, hs.stage.written⟩
  obtain ⟨-, hroots, hstage'⟩ := Runner.advance_upholds (infallible_upholds _) rfl delta hs.roots hstage
  exact ⟨hstage', hroots⟩

/-- Whatever the runs of a scene write are lines of its steps. -/
theorem transcript_subset (h : new scene start = .ok s) (calls : List (Nat × Float)) :
    (s.afterRuns calls).transcript ⊆ scene.lines :=
  (afterRuns_keeps (P := Telling scene.lines) (fun delta _ hs => tick_telling hs delta) (telling_of_new h) calls).stage.written

/-- Whatever is written where a source is played are lines of the scene that it reads as. -/
theorem Played.transcript_subset {source : String} {ticks : Nat} {fps : Float} {summary : Summary}
    (h : Played source start ticks fps summary s) :
    ∃ scene, Scene.parse source 0 = .ok scene ∧ s.transcript ⊆ scene.lines := by
  obtain ⟨hparse, hnew, hrun⟩ := h
  have hlines := Simulation.transcript_subset hnew [(ticks, fps)]
  rw [afterRuns, List.foldl_cons, List.foldl_nil, hrun] at hlines
  exact ⟨_, hparse, hlines⟩

end Simulation

end BlockScript
