import BlockScript.Proofs.Block.Upholds
import BlockScript.Proofs.Runner.Visits

/-!
# Calls that change nothing

Built-in blocks take no notice of being created and destroyed, and when they are exited the world stays as it is, so a root that
completes leaves the world as its last run left it. A tree whose leaves leave the world alone when they are entered, and whose tests
only look, leaves the world alone when it is entered.
-/

namespace BlockScript

variable {σ : Type v}

namespace Tree

/-- A call that changes no member of a list and not the world either. -/
theorem inTurn_unchanged {β : Type u} {call : β → σ → β × σ} {bs : List β} (h : ∀ b ∈ bs, ∀ w, call b w = (b, w)) (w : σ) :
    inTurn call bs w = (bs, w) := by
  induction bs with
  | nil => rfl
  | cons b bs ih =>
    obtain ⟨hb, hbs⟩ := List.forall_mem_cons.mp h
    rw [inTurn, hb, ih hbs]

/-- Entering a tree changes the world only as its leaves and tests do. -/
theorem enter_world {α : Type u} [Block α σ] {t : Tree α σ}
    (h : All (fun b => ∀ w, (Block.enter b w).2.2 = w) (fun k => ∀ w, (k.shouldExit w).2 = w) t) :
    ∀ w, (t.enter w).2.2 = w := by
  have henterAt : ∀ {cs : List (Tree α σ)}, (∀ c ∈ cs, ∀ w, (enter c w).2.2 = w) → ∀ i w, (enterAt cs i w).2.2 = w := by
    intro cs hcs i w
    rw [enterAt_eq]
    cases hc : cs[i]? with
    | none => rfl
    | some c => exact hcs c (List.mem_of_getElem? hc) w
  induction h with
  | leaf hb => exact hb
  | sequence _ ih => exact henterAt ih 0
  | loop hk _ ih =>
    intro w
    rcases hstop : LoopKind.shouldExit _ w with ⟨_ | _, w'⟩
    · rw [enter_loop_start hstop, ← hk w, hstop]
      exact henterAt ih 0 w'
    · rw [enter_loop_stop hstop, ← hk w, hstop]

end Tree

namespace BuiltIn

/-- Creating built-in blocks does nothing. -/
theorem create_eq (t : BuiltIn σ) : ∀ w, t.create w = (t, w) := by
  induction t using Tree.induct with
  | leaf b => exact fun w => rfl
  | sequence cs i e ih =>
    intro w
    rw [Tree.create, Tree.createAll_eq, Tree.inTurn_unchanged ih]
  | loop k cs i s e ih =>
    intro w
    rw [Tree.create, Tree.createAll_eq, Tree.inTurn_unchanged ih]

/-- Destroying built-in blocks does nothing. -/
theorem destroy_eq (t : BuiltIn σ) : ∀ w, t.destroy w = (t, w) := by
  induction t using Tree.induct with
  | leaf b => exact fun w => rfl
  | sequence cs i e ih =>
    intro w
    rw [Tree.destroy, Tree.destroyAll_eq, Tree.inTurn_unchanged ih]
  | loop k cs i s e ih =>
    intro w
    rw [Tree.destroy, Tree.destroyAll_eq, Tree.inTurn_unchanged ih]

/-- Exiting built-in blocks leaves the world as it is. -/
theorem exit_world (t : BuiltIn σ) : ∀ w, (t.exit w).2 = w := by
  have hexitAt : ∀ {cs : List (BuiltIn σ)}, (∀ c ∈ cs, ∀ w, (Tree.exit c w).2 = w) → ∀ i w, (Tree.exitAt cs i w).2 = w := by
    intro cs hcs i w
    rw [Tree.exitAt_eq]
    cases hc : cs[i]? with
    | none => rfl
    | some c => exact hcs c (List.mem_of_getElem? hc) w
  induction t using Tree.induct with
  | leaf b => exact fun w => rfl
  | sequence cs i e ih =>
    intro w
    cases e with
    | false => rfl
    | true => exact hexitAt ih i w
  | loop k cs i s e ih =>
    intro w
    cases e with
    | false => rfl
    | true => exact hexitAt ih i w

/-- A tree that can be entered becomes the newest root, as it was left by being entered. -/
theorem add_eq {t t' : BuiltIn σ} {w w' : σ} (h : t.enter w = (.ok (), t', w')) (r : Runner (BuiltIn σ)) :
    r.add t w = (.ok r.nextId, ⟨r.roots ++ [(r.nextId, t')], r.nextId + 1⟩, w') := by
  have hcreate : Block.create t w = (t, w) := create_eq t w
  have henter : Block.enter t w = (.ok (), t', w') := h
  simp only [Runner.add, hcreate, henter]

/-- A root that leaves the runner changes nothing any more. -/
theorem retire_eq (t : BuiltIn σ) (w : σ) : Runner.retire t w = w := by
  change (Tree.destroy (t.exit w).1 (t.exit w).2).2 = w
  rw [destroy_eq, exit_world]

end BuiltIn

/-- A visit of a root made of built-in blocks leaves the world as the run did. -/
theorem Visit.left_eq_reached (v : Visit (BuiltIn σ) σ) (dt : Float) : v.left dt = v.reached dt := by
  unfold left
  rw [BuiltIn.retire_eq, ite_self]

end BlockScript
