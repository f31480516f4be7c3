import BlockScript.Proofs.Scene.References
import BlockScript.Proofs.Simulation.Infallible
import Mathlib.Data.List.Induction

/-!
# Names that a scene may use

A scene is refused for its names alone. `Scene.FirstFault` says which fault is reported: the first object whose name is taken, or
else, if all objects have names of their own, the first reference in reading order that nothing declares. A scene is accepted
exactly if there is no such fault (`names_resolved`). Building a scene is not given a world, so whatever it refuses it refuses
before a block is entered or an action performed.
-/

namespace BlockScript

/-! ## The first failure of a series of checks -/

section

variable {ε β : Type} {check : β → Except ε Unit}

theorem forM_eq_ok {bs : List β} : forM bs check = .ok () ↔ ∀ b ∈ bs, check b = .ok () := by
  induction bs with
  | nil => simp [pure, Except.pure]
  | cons b rest ih =>
    rw [List.forM_cons, bind_eq_ok, List.forall_mem_cons, ← ih]
    exact ⟨fun ⟨_, hb, hrest⟩ => ⟨hb, hrest⟩, fun ⟨hb, hrest⟩ => ⟨(), hb, hrest⟩⟩

/-- A series of checks fails as its first check that fails does. -/
theorem forM_eq_error {before after : List β} {b : β} {e : ε} (hbefore : ∀ c ∈ before, check c = .ok ())
    (hb : check b = .error e) : forM (before ++ b :: after) check = .error e := by
  rw [List.forM_append, forM_eq_ok.mpr hbefore, List.forM_cons, hb]
  rfl

end

/-! ## Declarations -/

/-- The error of a reference to a name that nothing declares. -/
def Reference.unknown (script : String) : Reference → SceneError
  | .object name => .unknownObject name script
  | .assigned var => .unknownVariable var script
  | .tested var => .unknownVariable var script

namespace Scene

/-- The names of the declared objects, in order. -/
def objectNames (s : Scene) : List String := s.objects.map (·.name)

/-- Whether a scene declares what a reference names. -/
def Declares (s : Scene) : Reference → Prop
  | .object name => name ∈ s.objectNames
  | .assigned var => s.initial.contains var = true
  | .tested var => s.initial.contains var = true

instance (s : Scene) : DecidablePred s.Declares
  | .object name => inferInstanceAs (Decidable (name ∈ s.objectNames))
  | .assigned var => inferInstanceAs (Decidable (s.initial.contains var = true))
  | .tested var => inferInstanceAs (Decidable (s.initial.contains var = true))

/-- The first fault in the names of a scene. -/
inductive FirstFault (s : Scene) : SceneError → Prop where
  /-- An object has the name of an earlier one; those before it have names of their own. -/
  | duplicate {before after : List ObjectDeclaration} {o : ObjectDeclaration} :
      s.objects = before ++ o :: after → (before.map (·.name)).Nodup → o.name ∈ before.map (·.name) →
      FirstFault s (.duplicateObject o.name)
  /-- All objects have names of their own, and a script refers to a name that is not declared; all references before it are to
  names that are. -/
  | undeclared {before after : List (String × Reference)} {script : String} {r : Reference} :
      s.objectNames.Nodup → s.references = before ++ (script, r) :: after → (∀ x ∈ before, s.Declares x.2) →
      ¬s.Declares r → FirstFault s (r.unknown script)

end Scene

/-- After an insertion there is the key, and what there was. -/
theorem Dictionary.contains_insert {α : Type u} (d : Dictionary α) (key k : String) (value : α) :
    (d.insert key value).contains k = true ↔ k = key ∨ d.contains k = true := by
  unfold Dictionary.contains
  rw [get?_insert]
  by_cases h : k = key <;> simp [h]

namespace SceneState

/-- Objects with new names of their own are all added. -/
theorem addObjects_ok {s : SceneState} {objects : List ObjectDeclaration}
    (hnew : ∀ o ∈ objects, ¬s.objects.contains o.name = true) (hdistinct : (objects.map (·.name)).Nodup) :
    ∃ s', objects.foldlM (fun s o => s.addObject o.name o.enabled) s = .ok s' ∧ s'.table = s.table ∧
      ∀ name, s'.objects.contains name = true ↔ s.objects.contains name = true ∨ name ∈ objects.map (·.name) := by
  induction objects generalizing s with
  | nil => exact ⟨s, rfl, rfl, by simp⟩
  | cons o rest ih =>
    obtain ⟨ho, hrest⟩ := List.forall_mem_cons.mp hnew
    obtain ⟨hne, hdistinct⟩ := List.nodup_cons.mp hdistinct
    let added : SceneState := { s with objects := s.objects.insert o.name o.enabled }
    have hadd : s.addObject o.name o.enabled = .ok added := if_neg ho
    have hcontains : ∀ name, added.objects.contains name = true ↔ name = o.name ∨ s.objects.contains name = true :=
      fun name => s.objects.contains_insert o.name name o.enabled
    have hnew' : ∀ p ∈ rest, ¬added.objects.contains p.name = true := by
      intro p hp
      rw [hcontains]
      rintro (heq | hold)
      · exact hne (List.mem_map.mpr ⟨p, hp, heq⟩)
      · exact hrest p hp hold
    obtain ⟨s', hs', htable, hobjects⟩ := ih hnew' hdistinct
    refine ⟨s', ?_, htable, ?_⟩
    · rw [List.foldlM_cons, hadd]
      exact hs'
    · intro name
      rw [hobjects, hcontains, List.map_cons, List.mem_cons, or_assoc, or_left_comm]

variable {scene : Scene}

/-- The state of a scene whose objects have names of their own knows what the scene declares. -/
theorem ofScene_ok (h : scene.objectNames.Nodup) :
    ∃ state, ofScene scene = .ok state ∧ state.table = scene.initialVariables ∧
      ∀ name, state.objects.contains name = true ↔ name ∈ scene.objectNames := by
  obtain ⟨state, hstate, htable, hobjects⟩ :=
    addObjects_ok (s := { table := scene.initialVariables, objects := ∅ })
      (fun _ _ => Bool.false_ne_true) h
  refine ⟨state, hstate, htable, fun name => ?_⟩
  rw [hobjects]
  exact or_iff_right Bool.false_ne_true

/-- The first object whose name is taken is refused. -/
theorem ofScene_duplicate {before after : List ObjectDeclaration} {o : ObjectDeclaration}
    (hobjects : scene.objects = before ++ o :: after) (hdistinct : (before.map (·.name)).Nodup)
    (htaken : o.name ∈ before.map (·.name)) : ofScene scene = .error (.duplicateObject o.name) := by
  obtain ⟨s, hs, -, hcontains⟩ :=
    addObjects_ok (s := { table := scene.initialVariables, objects := ∅ })
      (fun _ _ => Bool.false_ne_true) hdistinct
  have hrefused : s.addObject o.name o.enabled = .error (.duplicateObject o.name) :=
    if_pos ((hcontains o.name).mpr (Or.inr htaken))
  rw [ofScene, hobjects, List.foldlM_append, hs]
  change (o :: after).foldlM (fun s o => s.addObject o.name o.enabled) s = _
  rw [List.foldlM_cons, hrefused]
  rfl

end SceneState

/-- The variables that a scene declares are the fields of the table it starts with. -/
theorem Scene.hasField_initialVariables (scene : Scene) (var : String) :
    scene.initialVariables.hasField var = scene.initial.contains var := by
  simp [Table.hasField, Scene.initialVariables, Dictionary.contains, Dictionary.get?_mapValues]

/-! ## Building a scene -/

namespace Scene

/-- All that is done with a scene before its first block is entered: the declared state and the roots of all scripts. -/
def build {σ : Type} [SceneHost σ] (actions : ActionsHandle σ) (scene : Scene) :
    Except SceneError (SceneState × List (String × BuiltIn σ)) := do
  let state ← SceneState.ofScene scene
  let roots ← scene.compile actions state
  pure (state, roots)

/-- A check of a reference in a state that knows exactly what the scene declares. -/
theorem resolve_ok_iff {scene : Scene} {state : SceneState} (htable : state.table = scene.initialVariables)
    (hobjects : ∀ name, state.objects.contains name = true ↔ name ∈ scene.objectNames) (script : String) (r : Reference) :
    Scope.resolve { script, state } r = .ok () ↔ scene.Declares r := by
  cases r with
  | object name => simp [Scope.resolve, Scope.requireObject, Declares, hobjects]
  | assigned var => simp [Scope.resolve, Scope.requireVariable, Declares, htable, hasField_initialVariables]
  | tested var => simp [Scope.resolve, Scope.requireVariable, Declares, htable, hasField_initialVariables]

/-- A reference that is refused is refused as unknown. -/
theorem resolve_error {scope : Scope} {r : Reference} {e : SceneError} (h : scope.resolve r = .error e) :
    e = r.unknown scope.script := by
  cases r with
  | object name =>
    simp only [Scope.resolve, Scope.requireObject] at h
    split at h <;> cases h
    rfl
  | assigned var =>
    simp only [Scope.resolve, Scope.requireVariable] at h
    split at h <;> cases h
    rfl
  | tested var =>
    simp only [Scope.resolve, Scope.requireVariable] at h
    split at h <;> cases h
    rfl

/-- Objects that do not all have names of their own include a first one whose name is taken. -/
theorem exists_first_duplicate {objects : List ObjectDeclaration} (h : ¬(objects.map (·.name)).Nodup) :
    ∃ before o after, objects = before ++ o :: after ∧ (before.map (·.name)).Nodup ∧ o.name ∈ before.map (·.name) := by
  induction objects using List.reverseRecOn with
  | nil => exact absurd List.nodup_nil h
  | append_singleton earlier last ih =>
    by_cases hearlier : (earlier.map (·.name)).Nodup
    · refine ⟨earlier, last, [], rfl, hearlier, ?_⟩
      by_contra hfresh
      exact h (by simpa [List.nodup_append, hearlier] using fun o ho heq => hfresh (List.mem_map.mpr ⟨o, ho, heq⟩))
    · obtain ⟨before, o, after, rfl, hbefore, ho⟩ := ih hearlier
      exact ⟨before, o, after ++ [last], by simp, hbefore, ho⟩

variable {σ : Type} [SceneHost σ] {actions : ActionsHandle σ} {scene : Scene}

/-- Where all objects have names of their own, building a scene is checking its references in reading order. -/
theorem exists_build_eq (h : scene.objectNames.Nodup) :
    ∃ (built : SceneState × List (String × BuiltIn σ)) (check : String × Reference → Except SceneError Unit),
      scene.build actions = (do forM scene.references check; pure built) ∧
      (∀ x, check x = .ok () ↔ scene.Declares x.2) ∧ ∀ x e, check x = .error e → e = x.2.unknown x.1 := by
  obtain ⟨state, hstate, htable, hobjects⟩ := SceneState.ofScene_ok h
  refine ⟨(state, scene.scripts.map fun s => (s.name, s.translate actions)),
    fun x => Scope.resolve { script := x.1, state } x.2, ?_, fun x => resolve_ok_iff htable hobjects x.1 x.2,
    fun x e => resolve_error⟩
  rw [build, hstate]
  change (do let roots ← scene.compile actions state; pure (state, roots)) = _
  rw [Scene.compile_eq, bind_assoc]
  rfl

/-- A scene with distinct names and declared references is built. -/
theorem build_ok (h : scene.objectNames.Nodup) (hrefs : ∀ x ∈ scene.references, scene.Declares x.2) :
    ∃ built, scene.build actions = .ok built := by
  obtain ⟨built, check, hbuild, hok, -⟩ := @exists_build_eq σ _ actions scene h
  have hchecks : forM scene.references check = .ok () := forM_eq_ok.mpr fun x hx => (hok x).mpr (hrefs x hx)
  rw [hbuild, hchecks]
  exact ⟨built, rfl⟩

/-- The first fault is what building a scene reports. -/
theorem FirstFault.build_error {cause : SceneError} (h : scene.FirstFault cause) : scene.build actions = .error cause := by
  cases h with
  | duplicate hobjects hdistinct htaken =>
    rw [build, SceneState.ofScene_duplicate hobjects hdistinct htaken]
    rfl
  | @undeclared before after script r hdistinct hrefs hbefore hr =>
    obtain ⟨built, check, hbuild, hok, herror⟩ := @exists_build_eq σ _ actions scene hdistinct
    have hfails : check (script, r) = .error (r.unknown script) := by
      cases hc : check (script, r) with
      | error e => rw [herror _ _ hc]
      | ok u => exact absurd ((hok _).mp hc) hr
    rw [hbuild, hrefs, forM_eq_error (fun x hx => (hok x).mpr (hbefore x hx)) hfails]
    rfl

/-- A scene has a first fault, unless its names are in order. -/
theorem firstFault_or (scene : Scene) : (∃ cause, scene.FirstFault cause) ∨
    (scene.objectNames.Nodup ∧ ∀ x ∈ scene.references, scene.Declares x.2) := by
  by_cases h : scene.objectNames.Nodup
  · cases hfirst : scene.references.find? fun x => ¬scene.Declares x.2 with
    | none =>
      refine Or.inr ⟨h, fun x hx => ?_⟩
      simpa using List.find?_eq_none.mp hfirst x hx
    | some x =>
      obtain ⟨hx, before, after, hrefs, hbefore⟩ := List.find?_eq_some_iff_append.mp hfirst
      exact Or.inl ⟨_, .undeclared h hrefs (by simpa using hbefore) (by simpa using hx)⟩
  · obtain ⟨before, o, after, hobjects, hbefore, ho⟩ := exists_first_duplicate h
    exact Or.inl ⟨_, .duplicate hobjects hbefore ho⟩

end Scene

/-! ## Loading a scene -/

namespace Simulation

/-- A simulation in which nothing has been registered yet. -/
def blank (state : SceneState) (start : Float) : SceneSimulation where
  context := .new Stage.handle
  stage := { console := .new start, scene := state }
  scripts := []
  start := start

/-- Loading a scene is building it and then registering its roots. -/
theorem new_eq (scene : Scene) (start : Float) :
    new scene start = match scene.build Stage.handle with
      | .error e => .error (.scene e)
      | .ok (state, roots) => ((blank state start).register roots).mapError .runtime := by
  unfold new Scene.build
  cases SceneState.ofScene scene with
  | error e => rfl
  | ok state =>
    simp only [bind, Except.bind, pure, Except.pure]
    cases scene.compile Stage.handle state with
    | error e => rfl
    | ok roots =>
      simp only [blank]
      cases register _ roots <;> rfl

/-- A scene that cannot be built is refused for that cause. -/
theorem new_error_of_build {scene : Scene} {cause : SceneError} (h : scene.build Stage.handle = .error cause) (start : Float) :
    new scene start = .error (.scene cause) := by
  rw [new_eq, h]

/-- A scene that was built is accepted, since registering its roots cannot fail. -/
theorem new_ok_of_build {scene : Scene} {built : SceneState × List (String × BuiltIn Stage)}
    (h : scene.build Stage.handle = .ok built) (start : Float) : ∃ s, new scene start = .ok s := by
  rcases new_safe scene start with ⟨cause, hnew⟩ | ⟨s, hnew, -⟩
  · rw [new_eq, h] at hnew
    cases hregister : (blank built.1 start).register built.2 <;> simp [hregister, Except.mapError] at hnew
  · exact ⟨s, hnew⟩

/-- Which names a scene may use. A scene is refused with the first fault in its names, and only for such a fault: the first object
whose name is taken, and otherwise the first reference, in order of the scripts and in reading order within each, that nothing
declares, with the name referred to and the name of the script. It is accepted exactly if all objects have names of their own and
every reference is to what is declared. Whatever is refused is refused by the build, for every host alike and before there is a
world in which a block could be entered; whoever plays the scene is told of it before any line is written. -/
theorem names_resolved (scene : Scene) (start : Float) :
    (∀ e, new scene start = .error e ↔ ∃ cause, scene.FirstFault cause ∧ e = .scene cause) ∧
    ((∃ s, new scene start = .ok s) ↔
      scene.objectNames.Nodup ∧ ∀ x ∈ scene.references, scene.Declares x.2) ∧
    ∀ cause, scene.FirstFault cause →
      (∀ (σ : Type) [SceneHost σ] (actions : ActionsHandle σ), scene.build actions = .error cause) ∧
      ∀ ticks fps, play scene start ticks fps = .error ([], .scene cause) := by
  have hfault : ∀ cause, scene.FirstFault cause → new scene start = .error (.scene cause) :=
    fun cause h => new_error_of_build h.build_error start
  have hgood : scene.objectNames.Nodup ∧ (∀ x ∈ scene.references, scene.Declares x.2) → ∃ s, new scene start = .ok s := by
    rintro ⟨hdistinct, hdeclared⟩
    obtain ⟨built, hbuild⟩ : ∃ built, scene.build Stage.handle = .ok built := Scene.build_ok hdistinct hdeclared
    exact new_ok_of_build hbuild start
  refine ⟨fun e => ⟨fun he => ?_, ?_⟩, ⟨?_, hgood⟩, fun cause h => ⟨fun σ _ actions => h.build_error, fun ticks fps => ?_⟩⟩
  · rcases scene.firstFault_or with ⟨cause, h⟩ | horder
    · rw [hfault cause h] at he
      cases he
      exact ⟨cause, h, rfl⟩
    · obtain ⟨s, hs⟩ := hgood horder
      rw [hs] at he
      nomatch he
  · rintro ⟨cause, h, rfl⟩
    exact hfault cause h
  · rintro ⟨s, hs⟩
    refine scene.firstFault_or.resolve_left ?_
    rintro ⟨cause, h⟩
    rw [hfault cause h] at hs
    nomatch hs
  · rw [play, hfault cause h]

/-- A scene that counts laps and, in the body of its loop, once misspells their name and then names a lamp it does not have. -/
def misspelt : Scene where
  initial := (∅ : Dictionary Literal).insert "laps" (.integer 0)
  objects := [{ name := "light" }]
  scripts := [{ name := "blink", steps := [.repeatUntil { var := "laps", comparison := .ge, value := .integer 3 }
    [.enable "light", .change "lap" 1.0, .disable "lamp"]] }]

/-- A scene that asks for the variable "lap" where "laps" is declared. -/
theorem names_resolved_misspelt : misspelt.FirstFault (.unknownVariable "lap" "blink") ∧
    new misspelt 0.0 = .error (.scene (.unknownVariable "lap" "blink")) ∧
    ∀ ticks fps, play misspelt 0.0 ticks fps = .error ([], .scene (.unknownVariable "lap" "blink")) := by
  have hfault : misspelt.FirstFault (.unknownVariable "lap" "blink") :=
    @Scene.FirstFault.undeclared misspelt [("blink", .tested "laps"), ("blink", .object "light")] [("blink", .object "lamp")]
      "blink" (.assigned "lap") (by decide) (by decide) (by decide) (by decide)
  obtain ⟨hrefused, -, hreported⟩ := names_resolved misspelt 0.0
  exact ⟨hfault, (hrefused _).mpr ⟨_, hfault, rfl⟩, (hreported _ hfault).2⟩

end Simulation

end BlockScript
