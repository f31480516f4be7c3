import BlockScript.Proofs.Block.Upholds
import BlockScript.Scene.Compile

/-!
# What the compiler emits

The leaves and the loops that occur in a compiled script, as a list: `Emitted` and `EmittedLoop`. Every tree that a script compiles
to is made of these alone (`Script.compile_emits`, `Scene.compile_emits`), each with names that the scene knows. So what is to be
shown of every compiled script is shown of eight kinds of leaves and three kinds of loops.
-/

namespace BlockScript

/-! ## Computations that may fail -/

/-- A computation of two steps succeeds exactly if the first does and then the second does. -/
theorem bind_eq_ok {ε β γ : Type} {x : Except ε β} {f : β → Except ε γ} {c : γ} :
    x >>= f = .ok c ↔ ∃ b, x = .ok b ∧ f b = .ok c := by
  cases x <;> simp [bind, Except.bind]

/-- Each answer of a successful traversal is the answer for a member of the list. -/
theorem exists_of_mem_mapM {ε β γ : Type} {f : β → Except ε γ} {bs : List β} {cs : List γ} (h : bs.mapM f = .ok cs) :
    ∀ c ∈ cs, ∃ b ∈ bs, f b = .ok c := by
  induction bs generalizing cs with
  | nil =>
    obtain rfl : [] = cs := by simpa [pure, Except.pure] using h
    exact nofun
  | cons b bs ih =>
    rw [List.mapM_cons] at h
    obtain ⟨d, hd, h⟩ := bind_eq_ok.mp h
    obtain ⟨ds, hds, h⟩ := bind_eq_ok.mp h
    cases h
    intro c hc
    rcases List.mem_cons.mp hc with rfl | hc
    · exact ⟨b, by simp, hd⟩
    · obtain ⟨b', hb', hc'⟩ := ih hds c hc
      exact ⟨b', by simp [hb'], hc'⟩

/-! ## Leaves and loops -/

variable {σ : Type} [SceneHost σ]

/-- The leaves of compiled scripts. Whatever reads or writes an object or a variable has found it in the scene. -/
inductive Emitted (actions : ActionsHandle σ) (state : SceneState) : Primitive σ → Prop where
  | wait (seconds : Float) : Emitted actions state (.waitFor actions seconds)
  | say (message : String) (duration : Float) : Emitted actions state (.say actions message duration)
  | playSound (name : String) (volume : Float) : Emitted actions state (.playSound actions name volume)
  | log (message : String) : Emitted actions state (.log actions message)
  | switch {object : String} (known : state.objects.contains object = true) (enabled : Bool) :
      Emitted actions state (.perform fun w =>
        SceneHost.toggled object enabled (SceneHost.modifyScene (·.setEnabled object enabled) w))
  | set {var : String} (known : state.table.hasField var = true) (value : Value) :
      Emitted actions state (.perform (SceneHost.modifyScene (·.setVariable var value)))
  | change {var : String} (known : state.table.hasField var = true) (amount : Float) :
      Emitted actions state (.perform (SceneHost.modifyScene (·.changeVariable var amount)))
  | waitUntil {c : Condition} (known : state.table.hasField c.var = true) : Emitted actions state (.waitUntil c.test)

/-- The loops of compiled scripts. -/
inductive EmittedLoop (state : SceneState) : LoopKind σ → Prop where
  | forever : EmittedLoop state .forever
  | whileTrue {c : Condition} (known : state.table.hasField c.var = true) : EmittedLoop state (.whileTrue c.test)
  | untilTrue {c : Condition} (known : state.table.hasField c.var = true) : EmittedLoop state (.untilTrue c.test)

variable {actions : ActionsHandle σ} {scope : Scope} {state : SceneState}

/-- An object that is required and found is declared. -/
theorem Scope.contains_of_requireObject {name : String} {u : Unit} (h : scope.requireObject name = .ok u) :
    scope.state.objects.contains name = true := by
  unfold Scope.requireObject at h
  split at h
  · assumption
  · nomatch h

/-- A variable that is required and found is declared. -/
theorem Scope.hasField_of_requireVariable {name : String} {u : Unit} (h : scope.requireVariable name = .ok u) :
    scope.state.table.hasField name = true := by
  unfold Scope.requireVariable at h
  split at h
  · assumption
  · nomatch h

/-- A compiled switch turns a declared object. -/
theorem Scope.compileSwitch_emits {object : String} {enabled : Bool} {t : BuiltIn σ}
    (h : scope.compileSwitch object enabled = .ok t) : Tree.All (Emitted actions scope.state) (EmittedLoop scope.state) t := by
  obtain ⟨_, hknown, ht⟩ := bind_eq_ok.mp h
  cases ht
  exact .leaf (.switch (contains_of_requireObject hknown) enabled)

/-- A condition compiles to its own test. -/
theorem Condition.compile_ok {c : Condition} {test : σ → Bool × σ} (h : c.compile scope = .ok test) :
    scope.state.table.hasField c.var = true ∧ test = c.test := by
  obtain ⟨_, hknown, htest⟩ := bind_eq_ok.mp h
  cases htest
  exact ⟨Scope.hasField_of_requireVariable hknown, rfl⟩

/-! ## Steps, scripts and scenes -/

namespace Step

mutual

/-- The tree of a step is made of what the compiler emits. -/
theorem compile_emits : ∀ {s : Step} {t : BuiltIn σ}, s.compile actions scope = .ok t →
    Tree.All (Emitted actions scope.state) (EmittedLoop scope.state) t
  | wait seconds, _, rfl => .leaf (.wait seconds)
  | say message duration, _, rfl => .leaf (.say message duration)
  | playSound name volume, _, rfl => .leaf (.playSound name volume)
  | log message, _, rfl => .leaf (.log message)
  | enable _, _, h => Scope.compileSwitch_emits h
  | disable _, _, h => Scope.compileSwitch_emits h
  | set var value, _, h => by
    obtain ⟨_, hknown, ht⟩ := bind_eq_ok.mp h
    cases ht
    exact .leaf (.set (Scope.hasField_of_requireVariable hknown) value.toValue)
  | change var amount, _, h => by
    obtain ⟨_, hknown, ht⟩ := bind_eq_ok.mp h
    cases ht
    exact .leaf (.change (Scope.hasField_of_requireVariable hknown) amount)
  | waitUntil c, _, h => by
    obtain ⟨test, htest, ht⟩ := bind_eq_ok.mp h
    obtain ⟨hknown, rfl⟩ := Condition.compile_ok htest
    cases ht
    exact .leaf (.waitUntil hknown)
  | sequence steps, _, h => by
    obtain ⟨blocks, hblocks, ht⟩ := bind_eq_ok.mp h
    cases ht
    exact .sequence (compileAll_emits hblocks)
  | repeatForever body, _, h => by
    obtain ⟨blocks, hblocks, ht⟩ := bind_eq_ok.mp h
    cases ht
    exact .loop .forever (compileAll_emits hblocks)
  | repeatWhile c body, _, h => by
    obtain ⟨test, htest, h⟩ := bind_eq_ok.mp h
    obtain ⟨hknown, rfl⟩ := Condition.compile_ok htest
    obtain ⟨blocks, hblocks, ht⟩ := bind_eq_ok.mp h
    cases ht
    exact .loop (.whileTrue hknown) (compileAll_emits hblocks)
  | repeatUntil c body, _, h => by
    obtain ⟨test, htest, h⟩ := bind_eq_ok.mp h
    obtain ⟨hknown, rfl⟩ := Condition.compile_ok htest
    obtain ⟨blocks, hblocks, ht⟩ := bind_eq_ok.mp h
    cases ht
    exact .loop (.untilTrue hknown) (compileAll_emits hblocks)

/-- The trees of steps are made of what the compiler emits. -/
theorem compileAll_emits : ∀ {steps : List Step} {ts : List (BuiltIn σ)}, compileAll actions scope steps = .ok ts →
    ∀ t ∈ ts, Tree.All (Emitted actions scope.state) (EmittedLoop scope.state) t
  | [], _, rfl => nofun
  | s :: rest, _, h => by
    obtain ⟨block, hblock, h⟩ := bind_eq_ok.mp h
    obtain ⟨blocks, hblocks, ht⟩ := bind_eq_ok.mp h
    cases ht
    exact List.forall_mem_cons.mpr ⟨compile_emits hblock, compileAll_emits hblocks⟩

end

end Step

/-- A compiled script is made of blocks that the compiler emits. -/
theorem Script.compile_emits {s : Script} {t : BuiltIn σ} (h : s.compile actions state = .ok t) :
    Tree.All (Emitted actions state) (EmittedLoop state) t := by
  obtain ⟨blocks, hblocks, ht⟩ := bind_eq_ok.mp h
  cases ht
  exact .sequence (Step.compileAll_emits hblocks)

/-- Every root of a compiled scene is made of what the compiler emits. -/
theorem Scene.compile_emits {scene : Scene} {roots : List (String × BuiltIn σ)} (h : scene.compile actions state = .ok roots) :
    ∀ x ∈ roots, Tree.All (Emitted actions state) (EmittedLoop state) x.2 := by
  intro x hx
  obtain ⟨s, -, hs⟩ := exists_of_mem_mapM h x hx
  obtain ⟨root, hroot, hx⟩ := bind_eq_ok.mp hs
  cases hx
  exact Script.compile_emits hroot

end BlockScript
