import BlockScript.Proofs.Block.Children

/-!
# The course of a composite

A sequence goes through its children once, a loop that never stops goes through them forever. Apart from what comes after the last child
the two are alike, and what is shown of both is shown here of a composite with a `Course`: one equation for each way that a call on it
can go.
-/

namespace BlockScript

/-- How often a composite goes through its children. -/
inductive Course where
  | once
  | forever

namespace Course

/-- The index of the child after the one at an index, of a number of children. -/
def next : Course → Nat → Nat → Nat
  | once, _, i => i + 1
  | forever, n, i => if i + 1 < n then i + 1 else 0

/-- No child is left to go through. -/
def Over : Course → Nat → Nat → Prop
  | once, n, i => n ≤ i
  | forever, n, _ => n = 0

/-- Where there is no next child, none is left. -/
theorem over_next {k : Course} {n i : Nat} (h : n ≤ k.next n i) : k.Over n (k.next n i) := by
  cases k with
  | once => exact h
  | forever =>
    rw [next] at h ⊢
    split at h
    case isTrue hlt => exact absurd h (Nat.not_le.mpr hlt)
    case isFalse => exact Nat.le_zero.mp h

/-- Where there is no first child, none is left. -/
theorem over_zero (k : Course) {n : Nat} (h : n ≤ 0) : k.Over n 0 := by
  cases k with
  | once => exact h
  | forever => exact Nat.le_zero.mp h

/-- Going round is counting modulo the number of children. -/
theorem next_mod {n : Nat} (hn : 0 < n) (i : Nat) : forever.next n (i % n) = (i + 1) % n := by
  rw [next, ← Nat.mod_add_mod i n 1]
  rcases Nat.lt_or_ge (i % n + 1) n with hlt | hge
  · rw [if_pos hlt, Nat.mod_eq_of_lt hlt]
  · have hlast : i % n + 1 = n := Nat.le_antisymm (Nat.mod_lt i hn) hge
    rw [if_neg (Nat.not_lt.mpr hge), hlast, Nat.mod_self]

end Course

namespace Tree

variable {α : Type u} {σ : Type v}

/-- A composite that has not been told to stop. -/
def composite (k : Course) (cs : List (Tree α σ)) (i : Nat) (e : Bool) : Tree α σ :=
  match k with
  | .once => sequence cs i e
  | .forever => loop .forever cs i false e

variable [Block α σ]

/-- What an attempt to enter the child at an index makes of a composite. -/
def attempt (k : Course) (cs : List (Tree α σ)) (i : Nat) (w : σ) : Outcome × Tree α σ × σ :=
  ((enterAt cs i w).1, composite k (enterAt cs i w).2.1 i (entered (enterAt cs i w).1 (enterAt cs i w).2.1 i), (enterAt cs i w).2.2)

/-- An attempt enters the child at the index and takes it for entered if that succeeds. -/
theorem attempt_of_getElem? (k : Course) {cs : List (Tree α σ)} {i : Nat} {c : Tree α σ} (hc : cs[i]? = some c) (w : σ) :
    attempt k cs i w = ((enter c w).1, composite k (cs.set i (enter c w).2.1) i (enter c w).1.isOk, (enter c w).2.2) := by
  have hi : i < cs.length := (List.getElem?_eq_some_iff.mp hc).1
  have henter : enterAt cs i w = ((enter c w).1, cs.set i (enter c w).2.1, (enter c w).2.2) := by rw [enterAt_eq, hc]
  simp [attempt, henter, entered, hi]

/-- There is no child to enter. -/
theorem attempt_of_length_le (k : Course) {cs : List (Tree α σ)} {i : Nat} (hi : cs.length ≤ i) (w : σ) :
    attempt k cs i w = (.ok (), composite k cs i false, w) := by
  have henter : enterAt cs i w = (.ok (), cs, w) := by rw [enterAt_eq, List.getElem?_eq_none hi]
  simp [attempt, henter, entered, Nat.not_lt.mpr hi]

theorem enter_forever (cs : List (Tree α σ)) (i : Nat) (s e : Bool) (w : σ) :
    enter (loop .forever cs i s e) w = attempt .forever cs 0 w :=
  enter_loop_start rfl cs i s e

/-- Entering either attempts the first child. -/
theorem enter_composite (k : Course) (cs : List (Tree α σ)) (i : Nat) (e : Bool) (w : σ) :
    enter (composite k cs i e) w = attempt k cs 0 w := by
  cases k with
  | once => rfl
  | forever => exact enter_forever cs i false e w

/-- Exiting either exits the child that is entered. -/
theorem exit_composite (k : Course) {cs : List (Tree α σ)} {i : Nat} {c : Tree α σ} (hc : cs[i]? = some c) (w : σ) :
    exit (composite k cs i true) w = (composite k (cs.set i (exit c w).1) i false, (exit c w).2) := by
  have hexit : exitAt cs i w = (cs.set i (exit c w).1, (exit c w).2) := by rw [exitAt_eq, hc]
  cases k <;> simp only [composite, exit, hexit, if_true]

/-- Exiting either does nothing where no child is entered. -/
theorem exit_composite_idle (k : Course) (cs : List (Tree α σ)) (i : Nat) (w : σ) :
    exit (composite k cs i false) w = (composite k cs i false, w) := by
  cases k <;> rfl

/-- A composite with a child to go on with is not complete. -/
theorem isComplete_composite (k : Course) {cs : List (Tree α σ)} {i : Nat} (hi : i < cs.length) (e : Bool) (w : σ) :
    isComplete (composite k cs i e) w = false := by
  cases k with
  | once => exact decide_eq_false (Nat.not_le.mpr hi)
  | forever => rfl

variable {dt : Float} {k : Course} {cs : List (Tree α σ)} {i : Nat} {w w' : σ} {err : BlockError}

/-- Running either does nothing where no child is left to take. -/
theorem run_composite_over (h : k.Over cs.length i) (e : Bool) :
    run dt (composite k cs i e) w = (.ok (), composite k cs i e, w) := by
  cases k with
  | once => exact run_sequence_done h e
  | forever => exact run_loop_idle (Or.inr (List.eq_nil_of_length_eq_zero h)) e

/-- Running either attempts the child at the cursor again if that could not be entered. -/
theorem run_composite_retry (hi : i < cs.length) : run dt (composite k cs i false) w = attempt k cs i w := by
  cases k with
  | once => exact run_sequence_retry hi
  | forever => exact run_loop_retry (List.ne_nil_of_length_pos (Nat.zero_lt_of_lt hi)) rfl

/-! ## Ticks that run a child -/

variable {c c' : Tree α σ} (hc : cs[i]? = some c)

include hc

/-- The run of the child failed. -/
theorem run_composite_error (h : run dt c w = (.error err, c', w')) :
    run dt (composite k cs i true) w = (.error err, composite k (cs.set i c') i true, w') := by
  have hi : i < cs.length := (List.getElem?_eq_some_iff.mp hc).1
  have hstep : runAt dt cs i w = (.error err, cs.set i c', w') := by simp only [runAt_eq, hc, stepChild, h]
  cases k with
  | once => exact run_sequence_error hi hstep
  | forever => exact run_loop_error (List.ne_nil_of_length_pos (Nat.zero_lt_of_lt hi)) rfl hstep

/-- The child is not complete yet. -/
theorem run_composite_busy (h : run dt c w = (.ok (), c', w')) (hopen : isComplete c' w' = false) :
    run dt (composite k cs i true) w = (.ok (), composite k (cs.set i c') i true, w') := by
  have hi : i < cs.length := (List.getElem?_eq_some_iff.mp hc).1
  have hstep : runAt dt cs i w = (.ok false, cs.set i c', w') := by
    simp only [runAt_eq, hc, stepChild, h, hopen, Bool.false_eq_true, if_false]
  cases k with
  | once => exact run_sequence_busy hi hstep
  | forever => exact run_loop_busy (List.ne_nil_of_length_pos (Nat.zero_lt_of_lt hi)) rfl hstep

/-- The child is complete: it is exited and the next one is entered. -/
theorem run_composite_next (h : run dt c w = (.ok (), c', w')) (hdone : isComplete c' w' = true) :
    run dt (composite k cs i true) w = attempt k (cs.set i (exit c' w').1) (k.next cs.length i) (exit c' w').2 := by
  have hi : i < cs.length := (List.getElem?_eq_some_iff.mp hc).1
  have hstep : runAt dt cs i w = (.ok true, cs.set i (exit c' w').1, (exit c' w').2) := by
    simp only [runAt_eq, hc, stepChild, h, hdone, if_true]
  cases k with
  | once => exact run_sequence_next hi hstep
  | forever =>
    have hne : cs ≠ [] := List.ne_nil_of_length_pos (Nat.zero_lt_of_lt hi)
    have hlength : (cs.set i (exit c' w').1).length = cs.length := List.length_set
    rw [Course.next, ← hlength]
    rcases Nat.lt_or_ge (i + 1) (cs.set i (exit c' w').1).length with hnext | hend
    · rw [if_pos hnext]
      exact run_loop_next hne rfl hstep hnext
    · rw [if_neg (Nat.not_lt.mpr hend)]
      exact run_loop_wrap hne rfl hstep hend rfl

/-- A tick that ended well ran its child well. -/
theorem run_child_ok (hok : (run dt (composite k cs i true) w).1 = .ok ()) : (run dt c w).1 = .ok () := by
  rcases hr : run dt c w with ⟨e | ⟨⟩, c', w'⟩
  · rw [run_composite_error hc hr] at hok
    exact absurd hok (by simp)
  · rfl

end Tree

end BlockScript
