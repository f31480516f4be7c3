import BlockScript.Proofs.Block.Lockstep
import BlockScript.Proofs.Scene.References
import BlockScript.Proofs.Simulation.Infallible

/-!
# What scripts read and write

The blocks of a script see of their stage the time and the variables that the script mentions; they change the variables that it
assigns, and they add lines to the transcript. `Confined` says so of what a block calls, and `Step.translate_confined` shows it of
all blocks of a script. Two copies of a script on stages that look alike to it therefore keep step: they write the same lines, leave
the same values in the variables and finish in the same tick (`Following.run`).
-/

namespace BlockScript

/-- A variable is mentioned if it is written or read by a condition. -/
def Mentioned (refs : List Reference) (v : String) : Prop := .assigned v ∈ refs ∨ .tested v ∈ refs

namespace Stage

/-- The value of a variable. -/
def valueOf (s : Stage) (v : String) : Value := s.scene.table.getField v

/-- The lines written so far. -/
def lines (s : Stage) : List String := s.console.lines.toList

/-- Stages that look alike to blocks with some references: the console is there, it is the same time, and the variables mentioned have
the same values. -/
structure Similar (refs : List Reference) (s s' : Stage) : Prop where
  ready : s.Ready
  ready' : s'.Ready
  time : s.console.clock.now = s'.console.clock.now
  values : ∀ v, Mentioned refs v → s.valueOf v = s'.valueOf v

/-- What blocks with some references may make of a stage: they add lines and change the variables they assign, and nothing else that
other blocks see. -/
structure Became (refs : List Reference) (s s' : Stage) (added : List String) : Prop where
  installed : s'.installed = s.installed
  clock : s'.console.clock = s.console.clock
  kept : ∀ v, .assigned v ∉ refs → s'.valueOf v = s.valueOf v
  lines : s'.lines = s.lines ++ added

variable {refs refs' : List Reference} {s s' s₁ s₂ s₃ : Stage} {added added' : List String}

theorem Became.refl (refs : List Reference) (s : Stage) : Became refs s s [] :=
  ⟨rfl, rfl, fun _ _ => rfl, (List.append_nil _).symm⟩

theorem Became.trans (h : Became refs s₁ s₂ added) (h' : Became refs s₂ s₃ added') : Became refs s₁ s₃ (added ++ added') where
  installed := h'.installed.trans h.installed
  clock := h'.clock.trans h.clock
  kept v hv := (h'.kept v hv).trans (h.kept v hv)
  lines := by rw [h'.lines, h.lines, List.append_assoc]

theorem Became.mono (h : Became refs s₁ s₂ added) (hrefs : refs ⊆ refs') : Became refs' s₁ s₂ added :=
  { h with kept := fun v hv => h.kept v fun hmem => hv (hrefs hmem) }

/-- A stage stays ready. -/
theorem Became.ready (h : Became refs s₁ s₂ added) (hs : s₁.Ready) : s₂.Ready := h.installed.trans hs

/-- What some blocks did to a stage leaves it similar for other blocks, if none of the variables these mention was assigned. -/
theorem Similar.of_became (h : Similar refs s₁ s') (hbecame : Became refs' s₁ s₂ added)
    (hapart : ∀ v, Mentioned refs v → .assigned v ∉ refs') : Similar refs s₂ s' where
  ready := hbecame.ready h.ready
  ready' := h.ready'
  time := hbecame.clock ▸ h.time
  values v hv := (hbecame.kept v (hapart v hv)).trans (h.values v hv)

end Stage

open Stage

/-! ## What blocks call -/

/-- What a block with some references calls: stages that look alike to it get the same answer, look alike afterwards, and have the
same lines added. -/
def Confined {γ : Type} (refs : List Reference) (f : Stage → γ × Stage) : Prop :=
  ∀ s s', Similar refs s s' → (f s).1 = (f s').1 ∧ Similar refs (f s).2 (f s').2 ∧
    ∃ added, Became refs s (f s).2 added ∧ Became refs s' (f s').2 added

section

variable {refs : List Reference}

/-- A reading of the stage that answers alike on stages that look alike. -/
theorem confined_of_reading {γ : Type} {f : Stage → γ × Stage} (hstill : ∀ s, (f s).2 = s)
    (hanswer : ∀ s s', Similar refs s s' → (f s).1 = (f s').1) : Confined refs f := by
  intro s s' h
  rw [hstill s, hstill s']
  exact ⟨hanswer s s' h, h, [], .refl refs s, .refl refs s'⟩

/-- A deed that always adds the same lines, and leaves variables that it may assign alike where stages look alike. -/
theorem confined_of_deed {f : Stage → Outcome × Stage} (added : List String)
    (hdeed : ∀ s, s.Ready → (f s).1 = .ok () ∧ Became refs s (f s).2 added)
    (hvalues : ∀ s s', Similar refs s s' → ∀ v, .assigned v ∈ refs → (f s).2.valueOf v = (f s').2.valueOf v) :
    Confined refs f := by
  intro s s' h
  obtain ⟨hok, hs⟩ := hdeed s h.ready
  obtain ⟨hok', hs'⟩ := hdeed s' h.ready'
  refine ⟨hok.trans hok'.symm, ⟨hs.ready h.ready, hs'.ready h.ready', ?_, fun v hv => ?_⟩, added, hs, hs'⟩
  · rw [hs.clock, hs'.clock, h.time]
  · by_cases hassigned : .assigned v ∈ refs
    · exact hvalues s s' h v hassigned
    · rw [hs.kept v hassigned, hs'.kept v hassigned, h.values v hv]

/-- Reading the clock is confined to any references. -/
theorem confined_currentTime : Confined refs Stage.handle.currentTime := by
  refine confined_of_reading (fun s => ?_) fun s s' h => ?_
  · rw [s.currentTime_eq]
  · have hs : s.installed = true := h.ready
    have hs' : s'.installed = true := h.ready'
    rw [s.currentTime_eq, s'.currentTime_eq, if_pos hs, if_pos hs', h.time]

/-- A test is confined to the variable that it reads. -/
theorem confined_test {c : Condition} (hc : .tested c.var ∈ refs) : Confined refs (c.test (σ := Stage)) := by
  refine confined_of_reading (fun s => rfl) fun s s' h => ?_
  have hvar : s.scene.table.getField c.var = s'.scene.table.getField c.var := h.values c.var (Or.inr hc)
  simp only [Condition.test, Condition.holds, SceneHost.scene, hvar]

/-- An action of the console that adds a line to the transcript. -/
theorem confined_act {action : Provider Stage → Stage → Stage} {line : String}
    (hline : ∀ s, action (Console.provider Stage.console Stage.modifyConsole) s = s.modifyConsole (Console.push line)) :
    Confined refs (Stage.handle.act action) := by
  have hact : ∀ s : Stage, s.Ready → Stage.handle.act action s = (.ok (), s.modifyConsole (Console.push line)) := by
    intro s hs
    simp only [ActionsHandle.act, Stage.handle]
    rw [if_pos (show s.installed = true from hs), ← hline]
  refine confined_of_deed [line] (fun s hs => ?_) fun s s' h v hv => ?_
  · rw [hact s hs]
    exact ⟨rfl, rfl, rfl, fun _ _ => rfl, Array.toList_push⟩
  · rw [hact s h.ready, hact s' h.ready']
    exact h.values v (Or.inl hv)

/-- A switch is confined to any references, since it assigns no variable. -/
theorem confined_switch (object : String) (enabled : Bool) : Confined refs fun s : Stage =>
    ((.ok () : Outcome), SceneHost.toggled object enabled (SceneHost.modifyScene (·.setEnabled object enabled) s)) := by
  refine confined_of_deed [Console.toggleLine object enabled] (fun s _ => ?_) fun s s' h v hv => h.values v (Or.inl hv)
  exact ⟨rfl, rfl, rfl, fun _ _ => rfl, Array.toList_push⟩

/-- Writing a variable, with a value that is the same on stages that look alike. -/
theorem confined_assign {var : String} (hvar : .assigned var ∈ refs) {update : SceneState → SceneState}
    {value : SceneState → Value} (hupdate : ∀ s, update s = s.setVariable var (value s))
    (hvalue : ∀ s s', Similar refs s s' → value s.scene = value s'.scene) :
    Confined refs fun s : Stage => ((.ok () : Outcome), SceneHost.modifyScene update s) := by
  have hread : ∀ (s : Stage) v, (SceneHost.modifyScene update s).valueOf v = if v = var then value s.scene else s.valueOf v := by
    intro s v
    simp only [SceneHost.modifyScene, Stage.valueOf, hupdate, SceneState.setVariable, Table.setField, Table.getField,
      Dictionary.getD, Dictionary.get?_insert]
    split <;> rfl
  refine confined_of_deed [] (fun s _ => ?_) fun s s' h v hv => ?_
  · refine ⟨rfl, rfl, rfl, fun v hv => ?_, (List.append_nil _).symm⟩
    rw [hread, if_neg]
    rintro rfl
    exact hv hvar
  · rw [hread, hread, hvalue s s' h, h.values v (Or.inl hv)]

/-- What a leaf calls is confined. -/
def Primitive.Confined (refs : List Reference) : Primitive Stage → Prop
  | .execute callback _ => BlockScript.Confined refs callback
  | .wait _ _ _ clock => BlockScript.Confined refs clock.currentTime
  | .condition test _ => BlockScript.Confined refs test

/-- The test of a loop is confined. -/
def LoopKind.Confined (refs : List Reference) (k : LoopKind Stage) : Prop := BlockScript.Confined refs k.shouldExit

namespace Step

mutual

/-- The blocks of a step are confined to its references. -/
theorem translate_confined : ∀ s : Step, s.references ⊆ refs →
    Tree.All (Primitive.Confined refs) (LoopKind.Confined refs) (s.translate Stage.handle)
  | wait _, _ => .leaf confined_currentTime
  | say _ _, _ => .leaf (confined_act fun _ => rfl)
  | playSound _ _, _ => .leaf (confined_act fun _ => rfl)
  | log _, _ => .leaf (confined_act fun _ => rfl)
  | enable object, _ => .leaf (confined_switch object true)
  | disable object, _ => .leaf (confined_switch object false)
  | set var value, h => .leaf (confined_assign (h (by simp [references])) (fun _ => rfl) fun _ _ _ => rfl)
  | change var amount, h => by
    have hvar : .assigned var ∈ refs := h (by simp [references])
    refine .leaf (confined_assign hvar (fun _ => rfl) fun s s' hs => ?_)
    rw [show s.scene.table.getField var = s'.scene.table.getField var from hs.values var (Or.inl hvar)]
  | waitUntil c, h => .leaf (confined_test (h (by simp [references])))
  | sequence steps, h => .sequence (translateAll_confined steps h)
  | repeatForever body, h => .loop (confined_of_reading (fun _ => rfl) fun _ _ _ => rfl) (translateAll_confined body h)
  | repeatWhile c body, h => by
    obtain ⟨hc, hbody⟩ := List.cons_subset.mp h
    refine .loop (fun s s' hs => ?_) (translateAll_confined body hbody)
    obtain ⟨hanswer, hafter⟩ := confined_test hc s s' hs
    exact ⟨congrArg not hanswer, hafter⟩
  | repeatUntil c body, h => by
    obtain ⟨hc, hbody⟩ := List.cons_subset.mp h
    exact .loop (confined_test hc) (translateAll_confined body hbody)

/-- The blocks of some steps are confined to their references. -/
theorem translateAll_confined : ∀ steps : List Step, referencesAll steps ⊆ refs →
    ∀ t ∈ translateAll Stage.handle steps, Tree.All (Primitive.Confined refs) (LoopKind.Confined refs) t
  | [], _ => nofun
  | s :: rest, h => by
    obtain ⟨hs, hrest⟩ := List.append_subset.mp h
    exact List.forall_mem_cons.mpr ⟨translate_confined s hs, translateAll_confined rest hrest⟩

end

end Step

/-- A translated script is confined to its references. -/
theorem Script.translate_confined (s : Script) :
    Tree.All (Primitive.Confined s.references) (LoopKind.Confined s.references) (s.translate Stage.handle) :=
  .sequence (Step.translateAll_confined s.steps fun _ h => h)

/-! ## Two copies of a script -/

/-- Two stages look alike to blocks with some references, and became so from two others by the same deeds. -/
def Alongside (refs : List Reference) (s₀ s₀' s s' : Stage) : Prop :=
  Similar refs s s' ∧ ∃ added, Became refs s₀ s added ∧ Became refs s₀' s' added

/-- What is confined answers alike on stages that are alike within the references. -/
theorem Confined.respondsAlike {γ : Type} {f : Stage → γ × Stage} (h : Confined refs f) (s₀ s₀' : Stage) :
    RespondsAlike (Alongside refs s₀ s₀') f := by
  rintro s s' ⟨hsimilar, added, hs, hs'⟩
  obtain ⟨hanswer, hafter, added', hbecame, hbecame'⟩ := h s s' hsimilar
  exact ⟨hanswer, hafter, added ++ added', hs.trans hbecame, hs'.trans hbecame'⟩

/-- A confined leaf calls what answers alike on stages that are alike within the references. -/
theorem Primitive.Confined.respects {b : Primitive Stage} (h : b.Confined refs) (s₀ s₀' : Stage) :
    b.Respects (Alongside refs s₀ s₀') := by
  cases b with
  | execute | wait | condition => exact BlockScript.Confined.respondsAlike h s₀ s₀'

/-- Leaves that are made of the same are confined together. -/
theorem Primitive.Confined.of_akin {b c : Primitive Stage} (hbc : b.Akin c) (h : b.Confined refs) : c.Confined refs := by
  cases hbc with
  | execute | wait | condition => exact h

/-- Two copies of a tree of confined blocks that are in step. -/
def Following (refs : List Reference) : BuiltIn Stage → BuiltIn Stage → Prop :=
  Tree.InStep (fun b c => b.Akin c ∧ b.Confined refs) (fun b c => b = c ∧ b.Confined refs) fun k l => k = l ∧ k.Confined refs

/-- Confined leaves run in lockstep on stages that are alike within the references. -/
theorem following_lockstep (refs : List Reference) (s₀ s₀' : Stage) :
    Lockstep (Tree.Akin (fun b c => b.Akin c ∧ b.Confined refs) fun k l => k = l ∧ k.Confined refs) (Following refs)
      (Alongside refs s₀ s₀') := by
  refine Tree.lockstep (Primitive.lockstep .of_akin fun h => h.respects s₀ s₀') ?_
  rintro k _ ⟨rfl, hk⟩ s s' hs
  obtain ⟨hanswer, hafter⟩ := Confined.respondsAlike hk s₀ s₀' s s' hs
  exact ⟨(k.shouldExit s).1, (k.shouldExit s).2, (k.shouldExit s').2, rfl, Prod.ext hanswer.symm rfl, hafter⟩

/-- A tree of confined blocks that was entered is in step with itself. -/
theorem following_of_entered {t : BuiltIn Stage} (ht : Tree.All (Primitive.Confined refs) (LoopKind.Confined refs) t) {s : Stage}
    (hs : s.Ready) (hok : (t.enter s).1 = .ok ()) : Following refs (t.enter s).2.1 (t.enter s).2.1 := by
  have halike : Alongside refs s s s s := ⟨⟨hs, hs, rfl, fun _ _ => rfl⟩, [], .refl refs s, .refl refs s⟩
  exact (following_lockstep refs s s).entered (Tree.akin_self (fun b hb => ⟨.refl b, hb⟩) (fun _ hk => ⟨rfl, hk⟩) ht) halike hok

/-- A tick of two copies that are in step, on stages that look alike to them. -/
theorem Following.run {b c : BuiltIn Stage} (h : Following refs b c) {s s' : Stage} (hs : Similar refs s s') (dt : Float) :
    (b.run dt s).1 = (c.run dt s').1 ∧ Following refs (b.run dt s).2.1 (c.run dt s').2.1 ∧
      (b.run dt s).2.1.isComplete (b.run dt s).2.2 = (c.run dt s').2.1.isComplete (c.run dt s').2.2 ∧
      Similar refs (b.run dt s).2.2 (c.run dt s').2.2 ∧
      ∃ added, Became refs s (b.run dt s).2.2 added ∧ Became refs s' (c.run dt s').2.2 added := by
  have hlockstep := following_lockstep refs s s'
  obtain ⟨hanswer, hfollowing, hafter⟩ := hlockstep.run dt h ⟨hs, [], .refl refs s, .refl refs s'⟩
  exact ⟨hanswer, hfollowing, hlockstep.isComplete hfollowing hafter, hafter⟩

end

end BlockScript
