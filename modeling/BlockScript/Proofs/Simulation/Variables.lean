import BlockScript.Proofs.Context.Attendance
import BlockScript.Proofs.Dictionary
import BlockScript.Proofs.Simulation.Opening
import BlockScript.Proofs.Text.ByteOrder

/-!
# The variables of a simulation

The compiler lets a block write or read a variable only if the scene declares it. So the table of a simulation never gains or loses a
variable, and no cell is ever emptied (`Scene.Shapes`). This is shown of the attended blocks: every deed of theirs finds the table so,
reads only what is there, and leaves the table so (`Attended.Sound`). It holds when the scene is loaded and in every tick, hence at
every moment of every run (`variables_keep_shape`).
-/

namespace BlockScript

/-! ## The shape of the table -/

/-- No literal leaves a cell empty. -/
theorem Literal.toValue_ne_nil (l : Literal) : l.toValue ≠ .nil := by
  cases l <;> simp [toValue, Value.ofInt]

/-- A table as a scene declares its variables: no list, the declared variables as its fields, and a value in each. -/
structure Scene.Shapes (scene : Scene) (t : Table) : Prop where
  items : t.items = #[]
  names : t.fieldNames = scene.initial.keys
  filled : ∀ e ∈ t.fields.entries, e.2 ≠ .nil

namespace Scene.Shapes

variable {scene : Scene} {t : Table} {var : String}

theorem initial (scene : Scene) : scene.Shapes scene.initialVariables := by
  refine ⟨rfl, Dictionary.keys_mapValues _ _, ?_⟩
  intro e he
  obtain ⟨⟨name, literal⟩, -, rfl⟩ := List.mem_map.mp he
  exact literal.toValue_ne_nil

/-- Variables of the shape of a scene are those that it declares. -/
theorem hasField_iff (h : scene.Shapes t) : t.hasField var = true ↔ scene.initial.contains var = true := by
  have hnames : t.fields.keys = scene.initial.keys := h.names
  rw [Table.hasField, Dictionary.contains_iff_mem_keys, Dictionary.contains_iff_mem_keys, hnames]

/-- A declared variable reads as the value that is in its cell. -/
theorem getField_ne_nil (h : scene.Shapes t) (hvar : scene.initial.contains var = true) : t.getField var ≠ .nil := by
  have hfield : t.fields.contains var = true := h.hasField_iff.mpr hvar
  obtain ⟨value, hvalue⟩ := Option.isSome_iff_exists.mp hfield
  have hread : t.getField var = value := by
    rw [Table.getField, Dictionary.getD, hvalue]
    rfl
  rw [hread]
  exact h.filled _ ((Dictionary.mem_entries_iff _ _ _).mpr hvalue)

/-- Writing a value to a declared variable keeps the shape. -/
theorem setField (h : scene.Shapes t) (hvar : scene.initial.contains var = true) {value : Value} (hvalue : value ≠ .nil) :
    scene.Shapes (t.setField var value) := by
  have hfield : t.fields.contains var = true := h.hasField_iff.mpr hvar
  refine ⟨h.items, (Dictionary.keys_insert hfield value).trans h.names, ?_⟩
  intro e he
  rcases Dictionary.mem_insertEntry he with rfl | hold
  · exact hvalue
  · exact h.filled e hold

end Scene.Shapes

/-! ## Deeds -/

/-- A variable has a cell with a value in it. -/
def Stage.Holds (s : Stage) (var : String) : Prop := s.scene.table.hasField var = true ∧ s.scene.table.getField var ≠ .nil

/-- A deed of the blocks of a scene, with what it reads or writes there: an action, a switch, a write to a declared variable, a change
or a test of a variable that holds a value, or a reading of the clock. -/
inductive Deed.Grounded : Deed Stage → Prop where
  | acted (record : ActionRecord) (s : Stage) : Grounded (.called (Stage.handle.act record.request) s)
  | switched (object : String) (enabled : Bool) (s : Stage) :
      Grounded (.called (fun w => (.ok (), SceneHost.toggled object enabled (SceneHost.modifyScene (·.setEnabled object enabled) w))) s)
  | assigned {var : String} (value : Literal) {s : Stage} : s.Holds var →
      Grounded (.called (fun w => (.ok (), SceneHost.modifyScene (·.setVariable var value.toValue) w)) s)
  | changed {var : String} (amount : Float) {s : Stage} : s.Holds var →
      Grounded (.called (fun w => (.ok (), SceneHost.modifyScene (·.changeVariable var amount) w)) s)
  | tested {condition : Condition} {s : Stage} : s.Holds condition.var → Grounded (.polled condition.test s)
  | read (s : Stage) : Grounded (.read s)

/-- A deed that finds the variables as the scene declares them, and uses only what is there. -/
structure Deed.Sound (scene : Scene) (d : Deed Stage) : Prop where
  shaped : scene.Shapes d.before.scene.table
  grounded : d.Grounded

/-- An attended stage that has the variables as the scene declares them, where only sound deeds were done. -/
structure Attended.Sound (scene : Scene) (v : Attended Stage) : Prop where
  shaped : scene.Shapes v.world.scene.table
  deeds : ∀ d ∈ v.deeds, d.Sound scene

section

variable {scene : Scene} {var : String}

/-- A declared variable is held. -/
theorem Scene.Shapes.holds {s : Stage} (h : scene.Shapes s.scene.table) (hvar : scene.initial.contains var = true) : s.Holds var :=
  ⟨h.hasField_iff.mpr hvar, h.getField_ne_nil hvar⟩

/-- What may be done where the variables are as declared: it is grounded there, and it leaves them so. -/
structure Befits {γ : Type} (scene : Scene) (deed : Stage → Deed Stage) (f : Stage → γ × Stage) : Prop where
  before : ∀ s, (deed s).before = s
  grounded : ∀ s, scene.Shapes s.scene.table → (deed s).Grounded
  shaped : ∀ s, scene.Shapes s.scene.table → scene.Shapes (f s).2.scene.table

/-- A deed that befits the scene keeps what is noted sound. -/
theorem Befits.note {γ : Type} {deed : Stage → Deed Stage} {f : Stage → γ × Stage} (h : Befits scene deed f) {v : Attended Stage}
    (hv : v.Sound scene) : (Attended.note deed f v).2.Sound scene := by
  refine ⟨h.shaped v.world hv.shaped, ?_⟩
  intro d hd
  rcases List.mem_append.mp hd with hold | hnew
  · exact hv.deeds d hold
  · obtain rfl := List.mem_singleton.mp hnew
    exact ⟨(h.before v.world).symm ▸ hv.shaped, h.grounded v.world hv.shaped⟩

/-- What a leaf does, attended, keeps an attended stage sound. -/
def Primitive.Sound (scene : Scene) (b : Primitive Stage) : Prop := b.attend.Keeps (Attended.Sound scene) fun _ => True

/-- Asking a loop, attended, keeps an attended stage sound. -/
def LoopKind.Sound (scene : Scene) (k : LoopKind Stage) : Prop := Tree.TestKeeps (Attended.Sound scene) k.attend

/-- A callback whose call befits the scene is sound. -/
theorem sound_callback {callback : Stage → Outcome × Stage} (h : Befits scene (.called callback) callback) :
    (Primitive.attempt callback).Sound scene := by
  intro v hv
  exact ⟨trivial, h.note hv⟩

/-- An action leaves the variables as they are. -/
theorem act_scene (record : ActionRecord) (s : Stage) : (Stage.handle.act record.request s).2.scene = s.scene := by
  cases hinstalled : s.installed with
  | false => simp [ActionsHandle.act, Stage.handle, hinstalled]
  | true => cases record <;> simp [ActionsHandle.act, Stage.handle, hinstalled, ActionRecord.request, Console.provider, Stage.modifyConsole]

/-- A block that acts is sound. -/
theorem sound_act (record : ActionRecord) : (Primitive.attempt (Stage.handle.act record.request)).Sound scene := by
  refine sound_callback ⟨fun _ => rfl, fun s _ => .acted record s, ?_⟩
  intro s hs
  rwa [act_scene]

/-- A wait is sound. -/
theorem sound_wait (seconds : Float) : (Primitive.waitFor Stage.handle seconds).Sound scene := by
  intro v hv
  refine ⟨trivial, ?_⟩
  have hread : Befits scene .read fun s : Stage => (s.console.clock.now, s) := ⟨fun _ => rfl, fun s _ => .read s, fun _ hs => hs⟩
  cases hinstalled : v.world.installed with
  | false => simpa [ActionsHandle.currentTime, ActionsHandle.attend, Stage.handle, hinstalled] using hv
  | true =>
    simpa [ActionsHandle.currentTime, ActionsHandle.attend, Stage.handle, hinstalled, Provider.attend, Console.provider] using
      hread.note hv

/-- A switch is sound. -/
theorem sound_switch (object : String) (enabled : Bool) : (Primitive.perform fun w : Stage =>
    SceneHost.toggled object enabled (SceneHost.modifyScene (·.setEnabled object enabled) w)).Sound scene :=
  sound_callback ⟨fun _ => rfl, fun s _ => .switched object enabled s, fun _ hs => hs⟩

/-- Assigning a declared variable is sound. -/
theorem sound_assign (hvar : scene.initial.contains var = true) (value : Literal) :
    (Primitive.perform (SceneHost.modifyScene (σ := Stage) (·.setVariable var value.toValue))).Sound scene := by
  refine sound_callback ⟨fun _ => rfl, ?_, ?_⟩
  · intro s hs
    exact .assigned value (hs.holds hvar)
  · intro s hs
    exact hs.setField hvar value.toValue_ne_nil

/-- Changing a declared variable is sound. -/
theorem sound_change (hvar : scene.initial.contains var = true) (amount : Float) :
    (Primitive.perform (SceneHost.modifyScene (σ := Stage) (·.changeVariable var amount))).Sound scene := by
  refine sound_callback ⟨fun _ => rfl, ?_, ?_⟩
  · intro s hs
    exact .changed amount (hs.holds hvar)
  · intro s hs
    exact hs.setField hvar (by simp)

/-- A test of a declared variable befits the scene. -/
theorem befits_test {condition : Condition} (hvar : scene.initial.contains condition.var = true) :
    Befits scene (.polled condition.test) (condition.test (σ := Stage)) := by
  refine ⟨fun _ => rfl, ?_, fun _ hs => hs⟩
  intro s hs
  exact .tested (hs.holds hvar)

namespace Step

mutual

/-- The blocks of a step are sound if the scene declares what the step refers to. -/
theorem translate_sound : ∀ s : Step, (∀ r ∈ s.references, scene.Declares r) →
    Tree.All (Primitive.Sound scene) (LoopKind.Sound scene) (s.translate Stage.handle)
  | wait seconds, _ => .leaf (sound_wait seconds)
  | say message duration, _ => .leaf (sound_act (.say message duration))
  | playSound name volume, _ => .leaf (sound_act (.sound name volume))
  | log message, _ => .leaf (sound_act (.log message))
  | enable object, _ => .leaf (sound_switch object true)
  | disable object, _ => .leaf (sound_switch object false)
  | set var value, h => .leaf (sound_assign (h (.assigned var) (by simp [references])) value)
  | change var amount, h => .leaf (sound_change (h (.assigned var) (by simp [references])) amount)
  | waitUntil condition, h => by
    have hvar : scene.initial.contains condition.var = true := h (.tested condition.var) (by simp [references])
    exact .leaf fun v hv => (befits_test hvar).note hv
  | sequence steps, h => .sequence (translateAll_sound steps h)
  | repeatForever body, h => .loop (fun v hv => hv) (translateAll_sound body h)
  | repeatWhile condition body, h => by
    obtain ⟨hvar, hbody⟩ := List.forall_mem_cons.mp h
    exact .loop (fun v hv => (befits_test hvar).note hv) (translateAll_sound body hbody)
  | repeatUntil condition body, h => by
    obtain ⟨hvar, hbody⟩ := List.forall_mem_cons.mp h
    exact .loop (fun v hv => (befits_test hvar).note hv) (translateAll_sound body hbody)

/-- The blocks of some steps are sound if the scene declares what the steps refer to. -/
theorem translateAll_sound : ∀ steps : List Step, (∀ r ∈ referencesAll steps, scene.Declares r) →
    ∀ t ∈ translateAll Stage.handle steps, Tree.All (Primitive.Sound scene) (LoopKind.Sound scene) t
  | [], _ => nofun
  | s :: rest, h => by
    obtain ⟨hs, hrest⟩ := List.forall_mem_append.mp h
    exact List.forall_mem_cons.mpr ⟨translate_sound s hs, translateAll_sound rest hrest⟩

end

end Step

/-- An attended tree whose leaves and loops keep an attended stage sound. -/
abbrev SoundTree (scene : Scene) : BuiltIn (Attended Stage) → Prop :=
  Tree.All (Primitive.Keeps (Attended.Sound scene) fun _ => True) (Tree.TestKeeps (Attended.Sound scene))

/-- Sound trees keep what is noted sound. -/
theorem soundTree_upholds (scene : Scene) : Upholds (SoundTree scene) (Attended.Sound scene) fun _ => True :=
  Tree.upholds (Primitive.upholds trivial) trivial fun _ hk => hk

/-- The roots of a scene's scripts are sound if the scene declares what it refers to. -/
theorem Script.translate_sound (h : ∀ x ∈ scene.references, scene.Declares x.2) {script : Script} (hscript : script ∈ scene.scripts) :
    SoundTree scene (script.translate Stage.handle).attend := by
  have hdeclared : ∀ r ∈ script.references, scene.Declares r := by
    intro r hr
    exact h (script.name, r) (List.mem_flatMap.mpr ⟨script, hscript, List.mem_map.mpr ⟨r, hr, rfl⟩⟩)
  have hroot : Tree.All (Primitive.Sound scene) (LoopKind.Sound scene) (script.translate Stage.handle) :=
    .sequence (Step.translateAll_sound script.steps hdeclared)
  unfold SoundTree Tree.attend
  refine Tree.all_mapLeaves ?_ ?_ hroot
  · intro b hb
    exact hb
  · intro k hk
    exact hk

end

/-! ## Simulations -/

namespace Simulation

/-- The deeds of the blocks in a tick, each with the stage that it found. -/
def tickDeeds (s : SceneSimulation) (delta : Float) : List (Deed Stage) :=
  (s.context.runner.attend.process delta ⟨s.stage.modifyConsole (·.advance delta), []⟩).2.2.deeds

/-- The deeds of the blocks in a number of ticks at most, which end as the ticks do. -/
def ticksDeeds (delta : Float) : Nat → SceneSimulation → List (Deed Stage)
  | 0, _ => []
  | n + 1, s =>
    if s.context.runner.isIdle then []
    else s.tickDeeds delta ++
      match s.tick delta with
      | (.error _, _) => []
      | (.ok (), s) => ticksDeeds delta n s

/-- The deeds of the blocks in a run. -/
def runDeeds (s : SceneSimulation) (ticks : Nat) (fps : Float) : List (Deed Stage) := ticksDeeds (1.0 / fps) ticks s

/-- The deeds of the blocks where roots are registered. -/
def registerDeeds (s : SceneSimulation) : List (String × BuiltIn Stage) → List (Deed Stage)
  | [] => []
  | (name, root) :: rest =>
    (s.context.runner.attend.add root.attend ⟨s.stage, []⟩).2.2.deeds ++
      match s.context.runBlock root s.stage with
      | (.error _, _, _) => []
      | (.ok id, context, stage) => registerDeeds { s with context, stage, scripts := s.scripts ++ [(name, id)] } rest

/-- The deeds of the blocks where a scene is loaded. -/
def loadDeeds (scene : Scene) (start : Float) : List (Deed Stage) :=
  match scene.build Stage.handle with
  | .error _ => []
  | .ok (state, roots) => (blank state start).registerDeeds roots

/-- The variables are as the scene declares them, and the roots will leave them so. -/
structure Shaped (scene : Scene) (s : SceneSimulation) : Prop where
  table : scene.Shapes s.stage.scene.table
  roots : ∀ x ∈ s.context.runner.attend.roots, SoundTree scene x.2

variable {scene : Scene} {s : SceneSimulation}

/-- A tick keeps the variables in shape, and its deeds are sound. -/
theorem tick_shaped (hs : s.Shaped scene) (delta : Float) :
    (s.tick delta).2.Shaped scene ∧ ∀ d ∈ s.tickDeeds delta, d.Sound scene := by
  let before : Attended Stage := ⟨s.stage.modifyConsole (·.advance delta), []⟩
  have hbefore : before.Sound scene := ⟨hs.table, List.forall_mem_nil _⟩
  obtain ⟨-, hroots, hsound⟩ := Runner.advance_upholds (soundTree_upholds scene) trivial delta hs.roots hbefore
  obtain ⟨-, hmirrors, hshows⟩ := s.context.runner.process_attend delta before
  have hrunner : (s.context.runner.attend.process delta before).2.1 = (s.tick delta).2.context.runner.attend := hmirrors.eq_attend
  have hstage : (s.context.runner.attend.process delta before).2.2.world = (s.tick delta).2.stage := hshows
  refine ⟨⟨?_, ?_⟩, hsound.deeds⟩
  · rw [← hstage]
    exact hsound.shaped
  · rw [← hrunner]
    exact hroots

/-- All deeds in ticks are sound. -/
theorem ticksDeeds_sound (hs : s.Shaped scene) (delta : Float) (ticks : Nat) : ∀ d ∈ ticksDeeds delta ticks s, d.Sound scene := by
  induction ticks generalizing s with
  | zero => exact List.forall_mem_nil _
  | succ ticks ih =>
    by_cases hidle : s.context.runner.isIdle = true
    · simp only [ticksDeeds, if_pos hidle]
      exact List.forall_mem_nil _
    · obtain ⟨hnext, hdeeds⟩ := tick_shaped hs delta
      simp only [ticksDeeds, if_neg hidle]
      rcases htick : s.tick delta with ⟨e | ⟨⟩, s'⟩ <;> rw [htick] at hnext
      · simpa using hdeeds
      · exact List.forall_mem_append.mpr ⟨hdeeds, ih hnext⟩

/-- A run keeps the shape of the variables, and its deeds are sound. -/
theorem run_shaped (hs : s.Shaped scene) (ticks : Nat) (fps : Float) :
    (s.run ticks fps).2.Shaped scene ∧ ∀ d ∈ s.runDeeds ticks fps, d.Sound scene :=
  ⟨run_keeps (P := (·.Shaped scene)) (fun _ hs => (tick_shaped hs _).1) hs ticks, ticksDeeds_sound hs (1.0 / fps) ticks⟩

/-- Runs keep the shape of the variables. -/
theorem afterRuns_shaped (hs : s.Shaped scene) (calls : List (Nat × Float)) : (s.afterRuns calls).Shaped scene :=
  afterRuns_keeps (P := (·.Shaped scene)) (fun delta _ hs => (tick_shaped hs delta).1) hs calls

/-- Registering sound roots keeps the variables in shape, and its deeds are sound. -/
theorem register_shaped (hs : s.Shaped scene) {roots : List (String × BuiltIn Stage)} (hroots : ∀ x ∈ roots, SoundTree scene x.2.attend) :
    (∀ s', s.register roots = .ok s' → s'.Shaped scene) ∧ ∀ d ∈ s.registerDeeds roots, d.Sound scene := by
  induction roots generalizing s with
  | nil =>
    refine ⟨?_, List.forall_mem_nil _⟩
    rintro s' ⟨⟩
    exact hs
  | cons x rest ih =>
    obtain ⟨name, root⟩ := x
    obtain ⟨hroot, hrest⟩ := List.forall_mem_cons.mp hroots
    have hbefore : Attended.Sound scene ⟨s.stage, []⟩ := ⟨hs.table, List.forall_mem_nil _⟩
    obtain ⟨-, hkept, hsound⟩ := Runner.add_upholds (soundTree_upholds scene) hs.roots hroot hbefore
    obtain ⟨-, hmirrors, hshows⟩ := s.context.runner.add_attend root ⟨s.stage, []⟩
    have hstage : (s.context.runner.attend.add root.attend ⟨s.stage, []⟩).2.2.world = (s.context.runner.add root s.stage).2.2 := hshows
    have htable := hsound.shaped
    rw [hmirrors.eq_attend] at hkept
    rw [hstage] at htable
    simp only [register, registerDeeds, Context.runBlock]
    rcases hadd : s.context.runner.add root s.stage with ⟨e | id, runner, stage⟩ <;> rw [hadd] at hkept htable
    · refine ⟨?_, by simpa using hsound.deeds⟩
      rintro s' ⟨⟩
    · have hnext : Shaped scene { s with context := { s.context with runner }, stage, scripts := s.scripts ++ [(name, id)] } :=
        ⟨htable, hkept⟩
      obtain ⟨hlast, hlater⟩ := ih hnext hrest
      exact ⟨hlast, List.forall_mem_append.mpr ⟨hsound.deeds, hlater⟩⟩

/-- Loading a scene that is accepted gives its variables their shape, and the deeds of loading are sound. -/
theorem new_shaped {start : Float} (h : new scene start = .ok s) : s.Shaped scene ∧ ∀ d ∈ loadDeeds scene start, d.Sound scene := by
  obtain ⟨hdistinct, hdeclared⟩ := names_in_order h
  rw [new_eq] at h
  rw [loadDeeds]
  cases hbuild : scene.build Stage.handle with
  | error e =>
    rw [hbuild] at h
    nomatch h
  | ok built =>
    obtain ⟨state, hstate, hcompile⟩ := bind_eq_ok.mp hbuild
    obtain ⟨roots, hroots, hbuilt⟩ := bind_eq_ok.mp hcompile
    cases hbuilt
    obtain ⟨rfl, -⟩ := Scene.translate_emits hroots
    obtain ⟨declared, hdeclares, htable, -⟩ := SceneState.ofScene_ok hdistinct
    obtain rfl : declared = state := by simpa [hstate] using hdeclares.symm
    have hblank : (blank declared start).Shaped scene := ⟨htable ▸ .initial scene, List.forall_mem_nil _⟩
    have hsound : ∀ x ∈ scene.scripts.map fun script => (script.name, script.translate Stage.handle), SoundTree scene x.2.attend :=
      List.forall_mem_map.mpr fun script hscript => script.translate_sound hdeclared hscript
    obtain ⟨hregistered, hdeeds⟩ := register_shaped hblank hsound
    refine ⟨?_, hdeeds⟩
    rw [hbuild] at h
    cases hregister : (blank declared start).register (scene.scripts.map fun script => (script.name, script.translate Stage.handle)) with
    | error e => simp [hregister, Except.mapError] at h
    | ok s' =>
      obtain rfl : s' = s := by simpa [hregister, Except.mapError] using h
      exact hregistered s' hregister

/-- The variables of a simulation keep the shape that the scene declares. At every moment of every run the table has no list, exactly the
declared variables for its fields, and a value in each of them: when the scene is loaded and between any runs and ticks, and at every
single deed of a block in between, be it in loading or in a tick. So every condition that is tested and every change reads a cell with a
value, and the variables are listed by exactly their declared names, in strictly ascending order of the bytes. -/
theorem variables_keep_shape {start : Float} (h : new scene start = .ok s) :
    (∀ d ∈ loadDeeds scene start, d.Sound scene) ∧ ∀ calls,
      scene.Shapes (s.afterRuns calls).stage.scene.table ∧
      (∀ ticks fps, ∀ d ∈ (s.afterRuns calls).runDeeds ticks fps, d.Sound scene) ∧
      (s.afterRuns calls).variableTexts.map (·.1) = scene.initial.keys ∧
      ((s.afterRuns calls).variableTexts.map (·.1)).Pairwise fun a b => bytesOf a < bytesOf b := by
  obtain ⟨hs, hloading⟩ := new_shaped h
  refine ⟨hloading, ?_⟩
  intro calls
  have hafter : (s.afterRuns calls).Shaped scene := afterRuns_shaped hs calls
  have hnames : (s.afterRuns calls).variableTexts.map (·.1) = (s.afterRuns calls).stage.scene.table.fieldNames := by
    simp [variableTexts, Dictionary.toList, Table.fieldNames, Dictionary.keys]
  refine ⟨hafter.table, fun ticks fps => (run_shaped hafter ticks fps).2, hnames.trans hafter.table.names, ?_⟩
  rw [hnames]
  have hsorted : (s.afterRuns calls).stage.scene.table.fieldNames.Pairwise (· < ·) :=
    List.pairwise_map.mpr (s.afterRuns calls).stage.scene.table.fields.ascending
  exact hsorted.imp bytesOf_lt

/-- A scene that counts its laps until there are three of them. -/
def lapCounter : Scene where
  initial := (∅ : Dictionary Literal).insert "laps" (.integer 0)
  scripts := [{ name := "run", steps := [.repeatUntil { var := "laps", comparison := .ge, value := .integer 3 } [.change "laps" 1.0]] }]

/-- A counter of laps keeps its one variable. -/
theorem variables_keep_shape_laps : ∃ s, new lapCounter 0.0 = .ok s ∧ (∀ d ∈ loadDeeds lapCounter 0.0, d.Sound lapCounter) ∧
    ∀ calls, lapCounter.Shapes (s.afterRuns calls).stage.scene.table ∧
      (∀ ticks fps, ∀ d ∈ (s.afterRuns calls).runDeeds ticks fps, d.Sound lapCounter) ∧
      (s.afterRuns calls).variableTexts.map (·.1) = ["laps"] := by
  have hbuild : ∃ built, lapCounter.build Stage.handle = .ok built := Scene.build_ok (by decide) (by decide)
  obtain ⟨s, hs⟩ := new_ok_of_build hbuild.choose_spec 0.0
  obtain ⟨hloading, hruns⟩ := variables_keep_shape hs
  refine ⟨s, hs, hloading, ?_⟩
  intro calls
  obtain ⟨hshape, hdeeds, hnames, -⟩ := hruns calls
  exact ⟨hshape, hdeeds, hnames⟩

end Simulation

end BlockScript
