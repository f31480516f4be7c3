import BlockScript.Block.Tree

/-!
# Children of a composite

Induction over trees, and what entering, running and exiting a child by its index does to the list of children: the child at
the index is replaced by the child as the call leaves it, and nothing happens where there is no such child. Statements about
composites use these equations and never open `enterAt`, `runAt` or `exitAt`.
-/

namespace BlockScript.Tree

variable {α : Type u} {σ : Type v}

/-- Induction over a tree: a composite may assume the statement of each of its children. -/
@[elab_as_elim, induction_eliminator]
theorem induct {motive : Tree α σ → Prop} (leaf : ∀ b, motive (leaf b))
    (sequence : ∀ cs i e, (∀ c ∈ cs, motive c) → motive (sequence cs i e))
    (loop : ∀ k cs i s e, (∀ c ∈ cs, motive c) → motive (loop k cs i s e)) (t : Tree α σ) : motive t := by
  refine Tree.rec (motive_1 := motive) (motive_2 := fun cs => ∀ c ∈ cs, motive c) leaf sequence loop ?_ ?_ t
  · intro c hc
    nomatch hc
  · intro c cs hc hcs d hd
    rcases List.mem_cons.mp hd with rfl | hd
    · exact hc
    · exact hcs d hd

/-- A call made on each member of a list in turn, in the world that the calls before it left behind. -/
def inTurn {β : Type u} (call : β → σ → β × σ) : List β → σ → List β × σ
  | [], w => ([], w)
  | b :: bs, w => ((call b w).1 :: (inTurn call bs (call b w).2).1, (inTurn call bs (call b w).2).2)

variable [Block α σ]

/-- Creating children is creating each of them. -/
theorem createAll_eq (cs : List (Tree α σ)) (w : σ) : createAll cs w = inTurn create cs w := by
  induction cs generalizing w with
  | nil => rfl
  | cons c cs ih => simp only [createAll, inTurn, ih]

/-- Destroying children is destroying each of them. -/
theorem destroyAll_eq (cs : List (Tree α σ)) (w : σ) : destroyAll cs w = inTurn destroy cs w := by
  induction cs generalizing w with
  | nil => rfl
  | cons c cs ih => simp only [destroyAll, inTurn, ih]

/-- Entering a child by its index. -/
theorem enterAt_eq (cs : List (Tree α σ)) (i : Nat) (w : σ) :
    enterAt cs i w = match cs[i]? with
      | none => (.ok (), cs, w)
      | some c => ((enter c w).1, cs.set i (enter c w).2.1, (enter c w).2.2) := by
  induction cs generalizing i with
  | nil => rfl
  | cons c cs ih =>
    cases i with
    | zero => rfl
    | succ i =>
      rw [enterAt, ih, List.getElem?_cons_succ]
      cases cs[i]? <;> rfl

/-- Exiting a child by its index. -/
theorem exitAt_eq (cs : List (Tree α σ)) (i : Nat) (w : σ) :
    exitAt cs i w = match cs[i]? with
      | none => (cs, w)
      | some c => (cs.set i (exit c w).1, (exit c w).2) := by
  induction cs generalizing i with
  | nil => rfl
  | cons c cs ih =>
    cases i with
    | zero => rfl
    | succ i =>
      rw [exitAt, ih, List.getElem?_cons_succ]
      cases cs[i]? <;> rfl

/-- One step of a child for its parent: the child is run and, if it is then complete, exited. The answer tells whether it
was. -/
def stepChild (dt : Float) (c : Tree α σ) (w : σ) : Except BlockError Bool × Tree α σ × σ :=
  match run dt c w with
  | (.error e, c, w) => (.error e, c, w)
  | (.ok (), c, w) => if isComplete c w then (.ok true, exit c w) else (.ok false, c, w)

/-- Running a child by its index. -/
theorem runAt_eq (dt : Float) (cs : List (Tree α σ)) (i : Nat) (w : σ) :
    runAt dt cs i w = match cs[i]? with
      | none => (.ok false, cs, w)
      | some c => ((stepChild dt c w).1, cs.set i (stepChild dt c w).2.1, (stepChild dt c w).2.2) := by
  induction cs generalizing i with
  | nil => rfl
  | cons c cs ih =>
    cases i with
    | zero =>
      simp only [runAt, stepChild, List.getElem?_cons_zero]
      rcases run dt c w with ⟨e | ⟨⟩, c', w'⟩
      · rfl
      · cases hc : c'.isComplete w' <;> simp [hc]
    | succ i =>
      rw [runAt, ih, List.getElem?_cons_succ]
      cases cs[i]? <;> rfl

/-! ## Entering a loop -/

/-- The test said to stop: nothing is entered. -/
theorem enter_loop_stop {k : LoopKind σ} {w w' : σ} (hk : k.shouldExit w = (true, w')) (cs : List (Tree α σ)) (i : Nat)
    (s e : Bool) : enter (loop k cs i s e) w = (.ok (), loop k cs 0 true false, w') := by
  simp [enter, hk]

/-- A loop whose test lets it start enters its first child. -/
theorem enter_loop_start {k : LoopKind σ} {w w' : σ} (hk : k.shouldExit w = (false, w')) (cs : List (Tree α σ)) (i : Nat)
    (s e : Bool) :
    enter (loop k cs i s e) w =
      ((enterAt cs 0 w').1, loop k (enterAt cs 0 w').2.1 0 false (entered (enterAt cs 0 w').1 (enterAt cs 0 w').2.1 0),
        (enterAt cs 0 w').2.2) := by
  simp [enter, hk]

/-! ## What a tick of a composite can be

One equation for each way that a tick can go, in terms of the step of the child under the cursor. -/

section

-- The equations of `run` are wanted in this section only: what comes after it uses the theorems below.
attribute [local simp] run

variable {dt : Float} {k : LoopKind σ} {cs cs' : List (Tree α σ)} {i : Nat} {w w' : σ} {err : BlockError}

/-- A sequence that is through does nothing. -/
theorem run_sequence_done (hi : cs.length ≤ i) (e : Bool) :
    run dt (sequence cs i e) w = (.ok (), sequence cs i e, w) := by
  simp [hi]

/-- A child that could not be entered is entered again instead of being run. -/
theorem run_sequence_retry (hi : i < cs.length) :
    run dt (sequence cs i false) w =
      ((enterAt cs i w).1, sequence (enterAt cs i w).2.1 i (entered (enterAt cs i w).1 (enterAt cs i w).2.1 i),
        (enterAt cs i w).2.2) := by
  simp [Nat.not_le.mpr hi]

/-- A sequence fails as the child at its cursor does, and stays there. -/
theorem run_sequence_error (hi : i < cs.length) (h : runAt dt cs i w = (.error err, cs', w')) :
    run dt (sequence cs i true) w = (.error err, sequence cs' i true, w') := by
  simp [Nat.not_le.mpr hi, h]

/-- A sequence stays at a child that is not done. -/
theorem run_sequence_busy (hi : i < cs.length) (h : runAt dt cs i w = (.ok false, cs', w')) :
    run dt (sequence cs i true) w = (.ok (), sequence cs' i true, w') := by
  simp [Nat.not_le.mpr hi, h]

/-- The child was complete and exited: its successor is entered in the same tick. -/
theorem run_sequence_next (hi : i < cs.length) (h : runAt dt cs i w = (.ok true, cs', w')) :
    run dt (sequence cs i true) w =
      ((enterAt cs' (i + 1) w').1, sequence (enterAt cs' (i + 1) w').2.1 (i + 1)
        (entered (enterAt cs' (i + 1) w').1 (enterAt cs' (i + 1) w').2.1 (i + 1)), (enterAt cs' (i + 1) w').2.2) := by
  simp [Nat.not_le.mpr hi, h]

/-- A loop that was told to stop, or that has no body, does nothing. -/
theorem run_loop_idle {s : Bool} (h : s = true ∨ cs = []) (e : Bool) :
    run dt (loop k cs i s e) w = (.ok (), loop k cs i s e, w) := by
  rcases h with rfl | rfl <;> simp

/-- The test said to stop: the child under the cursor stays as it is. -/
theorem run_loop_stop (hcs : cs ≠ []) (hk : k.shouldExit w = (true, w')) (e : Bool) :
    run dt (loop k cs i false e) w = (.ok (), loop k cs i true e, w') := by
  simp [hcs, hk]

/-- A loop that has no child entered and goes on tries again to enter the one at its cursor. -/
theorem run_loop_retry (hcs : cs ≠ []) (hk : k.shouldExit w = (false, w')) :
    run dt (loop k cs i false false) w =
      ((enterAt cs i w').1, loop k (enterAt cs i w').2.1 i false (entered (enterAt cs i w').1 (enterAt cs i w').2.1 i),
        (enterAt cs i w').2.2) := by
  simp [hcs, hk]

variable {w'' : σ}

/-- A loop that goes on fails as the child at its cursor does, and stays there. -/
theorem run_loop_error (hcs : cs ≠ []) (hk : k.shouldExit w = (false, w'))
    (h : runAt dt cs i w' = (.error err, cs', w'')) :
    run dt (loop k cs i false true) w = (.error err, loop k cs' i false true, w'') := by
  simp [hcs, hk, h]

/-- A loop that goes on stays at a child that is not done. -/
theorem run_loop_busy (hcs : cs ≠ []) (hk : k.shouldExit w = (false, w'))
    (h : runAt dt cs i w' = (.ok false, cs', w'')) :
    run dt (loop k cs i false true) w = (.ok (), loop k cs' i false true, w'') := by
  simp [hcs, hk, h]

/-- A loop that goes on enters the next child when one is done that is not the last. -/
theorem run_loop_next (hcs : cs ≠ []) (hk : k.shouldExit w = (false, w'))
    (h : runAt dt cs i w' = (.ok true, cs', w'')) (hi : i + 1 < cs'.length) :
    run dt (loop k cs i false true) w =
      ((enterAt cs' (i + 1) w'').1, loop k (enterAt cs' (i + 1) w'').2.1 (i + 1) false
        (entered (enterAt cs' (i + 1) w'').1 (enterAt cs' (i + 1) w'').2.1 (i + 1)), (enterAt cs' (i + 1) w'').2.2) := by
  simp [hcs, hk, h, hi]

variable {w₃ : σ}

/-- The last child was exited and the test said to stop: the cursor stays behind the body. -/
theorem run_loop_finish (hcs : cs ≠ []) (hk : k.shouldExit w = (false, w'))
    (h : runAt dt cs i w' = (.ok true, cs', w'')) (hi : cs'.length ≤ i + 1) (hk' : k.shouldExit w'' = (true, w₃)) :
    run dt (loop k cs i false true) w = (.ok (), loop k cs' (i + 1) true false, w₃) := by
  simp [hcs, hk, h, Nat.not_lt.mpr hi, hk']

/-- The last child was exited and the test said to go on: the first child is entered in the same tick. -/
theorem run_loop_wrap (hcs : cs ≠ []) (hk : k.shouldExit w = (false, w'))
    (h : runAt dt cs i w' = (.ok true, cs', w'')) (hi : cs'.length ≤ i + 1) (hk' : k.shouldExit w'' = (false, w₃)) :
    run dt (loop k cs i false true) w =
      ((enterAt cs' 0 w₃).1, loop k (enterAt cs' 0 w₃).2.1 0 false
        (entered (enterAt cs' 0 w₃).1 (enterAt cs' 0 w₃).2.1 0), (enterAt cs' 0 w₃).2.2) := by
  simp [hcs, hk, h, Nat.not_lt.mpr hi, hk']

end

/-! ## No call changes the number of children -/

theorem length_enterAt (cs : List (Tree α σ)) (i : Nat) (w : σ) : (enterAt cs i w).2.1.length = cs.length := by
  rw [enterAt_eq]
  split <;> simp

theorem length_of_runAt {dt : Float} {cs cs' : List (Tree α σ)} {i : Nat} {w w' : σ} {r : Except BlockError Bool}
    (h : runAt dt cs i w = (r, cs', w')) : cs'.length = cs.length := by
  have hlen : (runAt dt cs i w).2.1.length = cs.length := by
    rw [runAt_eq]
    split <;> simp
  rwa [h] at hlen

/-- A sequence is complete when its cursor is past its children. -/
theorem isComplete_sequence {cs : List (Tree α σ)} {i : Nat} {e : Bool} {w : σ} :
    isComplete (sequence cs i e) w = true ↔ cs.length ≤ i := by
  simp [isComplete]

end BlockScript.Tree
