import BlockScript.Proofs.Block.Observation

/-!
# The calls on leaves that one call on the root makes

The cursors of an entered tree tell which of its leaves is entered and not exited: `openLeaf`, one leaf at most. `enter_observe`,
`exit_observe` and `run_observe` say, for every tree in any state, that an observed tree does what the tree does, which calls on
leaves it makes meanwhile, and how they move the open leaf. Entering makes one attempt to enter a leaf at most (`Entry`); a tick
runs and exits the open leaf at most (`Held`) and may then make one such attempt (`Tick`). A tree that a tick leaves complete made
none: its parent can exit it and go on to enter the next child within the same tick. Creating and destroying pay no heed to the
cursors: they reach every leaf once (`create_observe`, `destroy_observe`).
-/

namespace BlockScript

section

variable {κ : Type w}

/-- The calls of entering a tree in which no leaf is open, how it ended, and the leaf that is then open. -/
inductive Entry : List (κ × Event) → Outcome → Option κ → Prop where
  /-- There was no leaf to enter. -/
  | silent : Entry [] (.ok ()) none
  | entered (k : κ) : Entry [(k, .enter (.ok ()))] (.ok ()) (some k)
  | refused (k : κ) (e : BlockError) : Entry [(k, .enter (.error e))] (.error e) none

/-- The calls of a tick that enters nothing: the leaf that was open before, the calls, how they ended, and the leaf that is then
open. -/
inductive Held : Option κ → List (κ × Event) → Outcome → Option κ → Prop where
  | idle (o : Option κ) : Held o [] (.ok ()) o
  | ran (k : κ) (r : Outcome) : Held (some k) [(k, .run r)] r (some k)
  /-- A composite was told to stop while the leaf was open. -/
  | left (k : κ) : Held (some k) [(k, .exit)] (.ok ()) none
  | finished (k : κ) : Held (some k) [(k, .run (.ok ())), (k, .exit)] (.ok ()) none

/-- The calls of a tick. -/
inductive Tick : Option κ → List (κ × Event) → Outcome → Option κ → Prop where
  | held {o o' : Option κ} {es : List (κ × Event)} {r : Outcome} : Held o es r o' → Tick o es r o'
  | entering {o o' : Option κ} {es es' : List (κ × Event)} {r : Outcome} :
      Held o es (.ok ()) none → Entry es' r o' → Tick o (es ++ es') r o'

/-- The calls of an exit. -/
def exitCalls : Option κ → List (κ × Event)
  | none => []
  | some k => [(k, .exit)]

/-- What is left open after the first part of a tick can be exited in the same tick. -/
theorem Held.exit {o o' : Option κ} {es : List (κ × Event)} (h : Held o es (.ok ()) o') :
    Held o (es ++ exitCalls o') (.ok ()) none := by
  cases h with
  | idle =>
    cases o with
    | none => exact Held.idle none
    | some k => exact Held.left k
  | ran k => exact Held.finished k
  | left k => exact Held.left k
  | finished k => exact Held.finished k

/-- An entry that made no call adds nothing to the first part of a tick. -/
theorem Held.append_nil {o o' : Option κ} {es : List (κ × Event)} {r : Outcome} (h : Held o es (.ok ()) none)
    (h' : Entry [] r o') : Held o (es ++ []) r o' := by
  cases h'
  rwa [List.append_nil]

/-- An entry is a tick of its own where nothing is open. -/
theorem Entry.tick {es : List (κ × Event)} {r : Outcome} {o : Option κ} (h : Entry es r o) : Tick none es r o :=
  Tick.entering (Held.idle none) h

end

namespace Tree

variable {α : Type u} {σ : Type v}

mutual

/-- The place of the leaf that is open in an entered tree found at the given place. -/
def openLeaf (p : Place) : Tree α σ → Option Place
  | leaf _ => some p
  | sequence cs i e => if e then openAt (p ++ [i]) cs i else none
  | loop _ cs i _ e => if e then openAt (p ++ [i]) cs i else none
termination_by structural t => t

/-- The place of the leaf that is open in the child at an index, found at the given place. -/
def openAt (p : Place) : List (Tree α σ) → Nat → Option Place
  | [], _ => none
  | c :: _, 0 => openLeaf p c
  | _ :: cs, i + 1 => openAt p cs i
termination_by structural cs => cs

end

/-- The open leaf of the child at an index is that of the child, if there is one. -/
theorem openAt_eq (p : Place) (cs : List (Tree α σ)) (i : Nat) : openAt p cs i = cs[i]?.bind (openLeaf p) := by
  induction cs generalizing i with
  | nil => rfl
  | cons c cs ih =>
    cases i with
    | zero => rfl
    | succ i => exact ih i

/-- Once the child at an index is replaced, its open leaf is that of the new child. -/
theorem openAt_set (p : Place) {cs : List (Tree α σ)} {i : Nat} (hi : i < cs.length) (c : Tree α σ) :
    openAt p (cs.set i c) i = openLeaf p c := by
  rw [openAt_eq, List.getElem?_set_self hi, Option.bind_some]

/-- The place of the leaf that is open below a composite with the given cursor and flag. -/
def openBelow (p : Place) (cs : List (Tree α σ)) (i : Nat) (e : Bool) : Option Place :=
  if e then openAt (p ++ [i]) cs i else none

/-- After an attempt to enter a child, the flag that the composite keeps decides what is open below it. -/
theorem openBelow_entered (p : Place) (r : Outcome) (cs : List (Tree α σ)) (i : Nat) :
    (if r.isOk then openBelow p cs i (entered r cs i) else none) = openBelow p cs i (entered r cs i) := by
  cases r <;> rfl

variable [Block α σ]

/-! ## Entering -/

/-- Entering the observed tree is entering the tree, with at most one attempt to enter a leaf. -/
def EntersObserved (t : Tree α σ) : Prop :=
  ∀ (p : Place) (w : σ) (log : List (Place × Event)), ∃ es,
    enter (t.observe p) ⟨w, log⟩ = ((enter t w).1, (enter t w).2.1.observe p, ⟨(enter t w).2.2, log ++ es⟩) ∧
    Entry es (enter t w).1 (if (enter t w).1.isOk then openLeaf p (enter t w).2.1 else none)

/-- Entering the child at an index; where there is no such child, no call is made. -/
theorem enterAt_observe_of {cs : List (Tree α σ)} (h : ∀ c ∈ cs, EntersObserved c) (p : Place) (i : Nat) (w : σ)
    (log : List (Place × Event)) : ∃ es,
    enterAt (observeFrom p 0 cs) i ⟨w, log⟩ =
      ((enterAt cs i w).1, observeFrom p 0 (enterAt cs i w).2.1, ⟨(enterAt cs i w).2.2, log ++ es⟩) ∧
    Entry es (enterAt cs i w).1
      (openBelow p (enterAt cs i w).2.1 i (entered (enterAt cs i w).1 (enterAt cs i w).2.1 i)) ∧
    (cs.length ≤ i → es = []) := by
  rw [enterAt_eq, enterAt_eq, getElem?_observe]
  cases hc : cs[i]? with
  | none =>
    have hi : cs.length ≤ i := List.getElem?_eq_none_iff.mp hc
    refine ⟨[], by simp, ?_, fun _ => rfl⟩
    simp only [openBelow, entered, hi, Nat.not_lt.mpr, decide_false, Bool.and_false]
    exact Entry.silent
  | some c =>
    have hi : i < cs.length := (List.getElem?_eq_some_iff.mp hc).1
    obtain ⟨es, heq, hes⟩ := h c (List.mem_of_getElem? hc) (p ++ [i]) w log
    refine ⟨es, by simp [heq, observe_set], ?_, fun hle => absurd hi (Nat.not_lt.mpr hle)⟩
    simp only [openBelow, entered, List.length_set, hi, decide_true, Bool.and_true, openAt_set _ hi]
    exact hes

/-- Entering an observed tree enters the tree, and notes an entry. -/
theorem enter_observe (t : Tree α σ) : EntersObserved t := by
  induction t with
  | leaf b =>
    intro p w log
    refine ⟨[(p, .enter (Block.enter b w).1)], rfl, ?_⟩
    simp only [enter, openLeaf]
    cases (Block.enter b w).1 with
    | error e => exact Entry.refused p e
    | ok => exact Entry.entered p
  | sequence cs i e ih =>
    intro p w log
    obtain ⟨es, heq, hes, -⟩ := enterAt_observe_of ih p 0 w log
    refine ⟨es, by simp [observe, enter, heq, entered], ?_⟩
    exact (openBelow_entered p _ _ 0).symm ▸ hes
  | loop k cs i s e ih =>
    intro p w log
    simp only [observe, enter, LoopKind.shouldExit_observe]
    cases (k.shouldExit w).1 with
    | true => exact ⟨[], by simp [observe], Entry.silent⟩
    | false =>
      obtain ⟨es, heq, hes, -⟩ := enterAt_observe_of ih p 0 (k.shouldExit w).2 log
      refine ⟨es, by simp [observe, heq, entered], ?_⟩
      exact (openBelow_entered p _ _ 0).symm ▸ hes

/-- Entering an observed child enters the child, and notes an entry at its place. -/
theorem enterAt_observe (cs : List (Tree α σ)) (p : Place) (i : Nat) (w : σ) (log : List (Place × Event)) : ∃ es,
    enterAt (observeFrom p 0 cs) i ⟨w, log⟩ =
      ((enterAt cs i w).1, observeFrom p 0 (enterAt cs i w).2.1, ⟨(enterAt cs i w).2.2, log ++ es⟩) ∧
    Entry es (enterAt cs i w).1
      (openBelow p (enterAt cs i w).2.1 i (entered (enterAt cs i w).1 (enterAt cs i w).2.1 i)) ∧
    (cs.length ≤ i → es = []) :=
  enterAt_observe_of (fun c _ => enter_observe c) p i w log

/-! ## Exiting -/

/-- Exiting the observed tree is exiting the tree, and the one call made is the exit of the leaf that is open. -/
def ExitsObserved (t : Tree α σ) : Prop :=
  ∀ (p : Place) (w : σ) (log : List (Place × Event)),
    exit (t.observe p) ⟨w, log⟩ = ((exit t w).1.observe p, ⟨(exit t w).2, log ++ exitCalls (openLeaf p t)⟩)

/-- Exiting an observed child exits the child, and notes the exit of the leaf that is open in it. -/
theorem exitAt_observe {cs : List (Tree α σ)} (h : ∀ c ∈ cs, ExitsObserved c) (p : Place) (i : Nat) (w : σ)
    (log : List (Place × Event)) :
    exitAt (observeFrom p 0 cs) i ⟨w, log⟩ =
      (observeFrom p 0 (exitAt cs i w).1, ⟨(exitAt cs i w).2, log ++ exitCalls (openAt (p ++ [i]) cs i)⟩) := by
  rw [exitAt_eq, exitAt_eq, getElem?_observe, openAt_eq]
  cases hc : cs[i]? with
  | none => simp [exitCalls]
  | some c => simp [h c (List.mem_of_getElem? hc) (p ++ [i]) w log, observe_set]

/-- Exiting an observed tree exits the tree, and notes the exit of the leaf that is open in it. -/
theorem exit_observe (t : Tree α σ) : ExitsObserved t := by
  induction t with
  | leaf b =>
    intro p w log
    rfl
  | sequence cs i e ih =>
    intro p w log
    cases e with
    | false => simp [observe, exit, openLeaf, exitCalls]
    | true => simp [observe, exit, openLeaf, exitAt_observe ih p i w log]
  | loop k cs i s e ih =>
    intro p w log
    cases e with
    | false => simp [observe, exit, openLeaf, exitCalls]
    | true => simp [observe, exit, openLeaf, exitAt_observe ih p i w log]

/-! ## Ticking -/

/-- An observed tree reads complete when the tree does. -/
theorem isComplete_observe (p : Place) (t : Tree α σ) (w : σ) (log : List (Place × Event)) :
    isComplete (t.observe p) ⟨w, log⟩ = isComplete t w := by
  cases t with
  | leaf b => rfl
  | sequence cs i e => simp [observe, isComplete]
  | loop k cs i s e => rfl

/-- Running the observed tree is running the tree, and the calls made are a tick; if the tree is then complete, no leaf was to be
entered. -/
def RunsObserved (t : Tree α σ) : Prop :=
  ∀ (dt : Float) (p : Place) (w : σ) (log : List (Place × Event)), ∃ es,
    run dt (t.observe p) ⟨w, log⟩ = ((run dt t w).1, (run dt t w).2.1.observe p, ⟨(run dt t w).2.2, log ++ es⟩) ∧
    Tick (openLeaf p t) es (run dt t w).1 (openLeaf p (run dt t w).2.1) ∧
    (isComplete (run dt t w).2.1 (run dt t w).2.2 = true →
      Held (openLeaf p t) es (run dt t w).1 (openLeaf p (run dt t w).2.1))

/-- The calls of one step of a child for its parent: a tick, after which nothing is open if the child was exited. -/
def ChildTick {κ : Type w} (o : Option κ) (es : List (κ × Event)) : Except BlockError Bool → Option κ → Prop
  | .error e, o' => Tick o es (.error e) o'
  | .ok false, o' => Tick o es (.ok ()) o'
  | .ok true, _ => Held o es (.ok ()) none

/-- An observed child's share of a tick is that of the child, with the events noted that it may have. -/
theorem stepChild_observe {c : Tree α σ} (h : RunsObserved c) (dt : Float) (p : Place) (w : σ)
    (log : List (Place × Event)) : ∃ es,
    stepChild dt (c.observe p) ⟨w, log⟩ =
      ((stepChild dt c w).1, (stepChild dt c w).2.1.observe p, ⟨(stepChild dt c w).2.2, log ++ es⟩) ∧
    ChildTick (openLeaf p c) es (stepChild dt c w).1 (openLeaf p (stepChild dt c w).2.1) := by
  obtain ⟨es, heq, htick, hheld⟩ := h dt p w log
  unfold stepChild
  rw [heq]
  rcases hrun : run dt c w with ⟨e | ⟨⟩, c', w'⟩
  · rw [hrun] at htick
    exact ⟨es, rfl, htick⟩
  · rw [hrun] at htick hheld
    simp only [isComplete_observe]
    cases hc : isComplete c' w' with
    | false => exact ⟨es, by simp, htick⟩
    | true =>
      refine ⟨es ++ exitCalls (openLeaf p c'), ?_, (hheld hc).exit⟩
      simp [exit_observe c' p w' (log ++ es)]

/-- Running an observed child runs the child, with the events noted that its share of a tick may have. -/
theorem runAt_observe {cs : List (Tree α σ)} (h : ∀ c ∈ cs, RunsObserved c) (dt : Float) (p : Place) (i : Nat) (w : σ)
    (log : List (Place × Event)) : ∃ es,
    runAt dt (observeFrom p 0 cs) i ⟨w, log⟩ =
      ((runAt dt cs i w).1, observeFrom p 0 (runAt dt cs i w).2.1, ⟨(runAt dt cs i w).2.2, log ++ es⟩) ∧
    ChildTick (openAt (p ++ [i]) cs i) es (runAt dt cs i w).1 (openAt (p ++ [i]) (runAt dt cs i w).2.1 i) := by
  rw [runAt_eq, runAt_eq, getElem?_observe]
  cases hc : cs[i]? with
  | none =>
    refine ⟨[], by simp, ?_⟩
    rw [openAt_eq, hc]
    exact Tick.held (Held.idle none)
  | some c =>
    have hi : i < cs.length := (List.getElem?_eq_some_iff.mp hc).1
    obtain ⟨es, heq, hes⟩ := stepChild_observe (h c (List.mem_of_getElem? hc)) dt (p ++ [i]) w log
    refine ⟨es, by simp [heq, observe_set], ?_⟩
    simp only [openAt_set _ hi]
    rw [openAt_eq, hc]
    exact hes

/-- A sequence runs under observation as it runs, if its children do. -/
theorem sequence_runsObserved {cs : List (Tree α σ)} (ih : ∀ c ∈ cs, RunsObserved c) (i : Nat) (e : Bool) :
    RunsObserved (sequence cs i e) := by
  intro dt p w log
  by_cases hi : cs.length ≤ i
  · rw [run_sequence_done hi, observe, run_sequence_done (by simpa using hi)]
    exact ⟨[], by simp, Tick.held (Held.idle _), fun _ => Held.idle _⟩
  have hlt : i < cs.length := Nat.not_le.mp hi
  have hlt' : i < (observeFrom p 0 cs).length := by rwa [length_observeFrom]
  cases e with
  | false =>
    obtain ⟨es, heq, hes, -⟩ := enterAt_observe cs p i w log
    rw [run_sequence_retry hlt, observe, run_sequence_retry hlt', heq]
    refine ⟨es, by simp [observe, entered], hes.tick, fun hc => ?_⟩
    rw [isComplete_sequence, length_enterAt] at hc
    exact absurd hc hi
  | true =>
    obtain ⟨es, heq, hes⟩ := runAt_observe ih dt p i w log
    rcases hstep : runAt dt cs i w with ⟨err | (_ | _), cs', w'⟩
    · rw [hstep] at heq hes
      rw [run_sequence_error hlt hstep, observe, run_sequence_error hlt' heq]
      refine ⟨es, rfl, hes, fun hc => ?_⟩
      rw [isComplete_sequence, length_of_runAt hstep] at hc
      exact absurd hc hi
    · rw [hstep] at heq hes
      rw [run_sequence_busy hlt hstep, observe, run_sequence_busy hlt' heq]
      refine ⟨es, rfl, hes, fun hc => ?_⟩
      rw [isComplete_sequence, length_of_runAt hstep] at hc
      exact absurd hc hi
    · -- The child has been exited; past the last one there is none to enter, and only then is the sequence complete.
      rw [hstep] at heq hes
      obtain ⟨es', heq', hes', hnone⟩ := enterAt_observe cs' p (i + 1) w' (log ++ es)
      rw [run_sequence_next hlt hstep, observe, run_sequence_next hlt' heq, heq']
      refine ⟨es ++ es', by simp [observe, entered], Tick.entering hes hes', fun hc => ?_⟩
      rw [isComplete_sequence, length_enterAt] at hc
      cases hnone hc
      exact Held.append_nil hes hes'

/-- A loop runs under observation as it runs, if its children do. -/
theorem loop_runsObserved {cs : List (Tree α σ)} (ih : ∀ c ∈ cs, RunsObserved c) (k : LoopKind σ) (i : Nat) (s e : Bool) :
    RunsObserved (loop k cs i s e) := by
  intro dt p w log
  by_cases hidle : s = true ∨ cs = []
  · rw [run_loop_idle hidle, observe, run_loop_idle (hidle.imp_right (by rintro rfl; rfl))]
    exact ⟨[], by simp, Tick.held (Held.idle _), fun _ => Held.idle _⟩
  obtain ⟨hs, hcs⟩ := not_or.mp hidle
  obtain rfl : s = false := by simpa using hs
  have hcs' : observeFrom p 0 cs ≠ [] := by rwa [ne_eq, ← List.isEmpty_iff, isEmpty_observeFrom, List.isEmpty_iff]
  have hask := k.shouldExit_observe w log
  rcases hk : k.shouldExit w with ⟨stop, w₁⟩
  rw [hk] at hask
  cases stop with
  | true =>
    rw [run_loop_stop hcs hk, observe, run_loop_stop hcs' hask]
    exact ⟨[], by simp [observe], Tick.held (Held.idle _), fun _ => Held.idle _⟩
  | false =>
    -- Told to go on, the loop is complete only if it comes to the end of its body and is told to stop there.
    cases e with
    | false =>
      obtain ⟨es, heq, hes, -⟩ := enterAt_observe cs p i w₁ log
      rw [run_loop_retry hcs hk, observe, run_loop_retry hcs' hask, heq]
      exact ⟨es, by simp [observe, entered], hes.tick, by simp [isComplete]⟩
    | true =>
      obtain ⟨es, heq, hes⟩ := runAt_observe ih dt p i w₁ log
      rcases hstep : runAt dt cs i w₁ with ⟨err | (_ | _), cs', w'⟩
      · rw [hstep] at heq hes
        rw [run_loop_error hcs hk hstep, observe, run_loop_error hcs' hask heq]
        exact ⟨es, rfl, hes, by simp [isComplete]⟩
      · rw [hstep] at heq hes
        rw [run_loop_busy hcs hk hstep, observe, run_loop_busy hcs' hask heq]
        exact ⟨es, rfl, hes, by simp [isComplete]⟩
      · rw [hstep] at heq hes
        by_cases hi : i + 1 < cs'.length
        · obtain ⟨es', heq', hes', -⟩ := enterAt_observe cs' p (i + 1) w' (log ++ es)
          rw [run_loop_next hcs hk hstep hi, observe, run_loop_next hcs' hask heq (by simpa using hi), heq']
          exact ⟨es ++ es', by simp [observe, entered], Tick.entering hes hes', by simp [isComplete]⟩
        · have hend : cs'.length ≤ i + 1 := Nat.not_lt.mp hi
          have hend' : (observeFrom p 0 cs').length ≤ i + 1 := by rwa [length_observeFrom]
          have hask' := k.shouldExit_observe w' (log ++ es)
          rcases hk' : k.shouldExit w' with ⟨stop, w₂⟩
          rw [hk'] at hask'
          cases stop with
          | true =>
            rw [run_loop_finish hcs hk hstep hend hk', observe, run_loop_finish hcs' hask heq hend' hask']
            exact ⟨es, rfl, Tick.held hes, fun _ => hes⟩
          | false =>
            obtain ⟨es', heq', hes', -⟩ := enterAt_observe cs' p 0 w₂ (log ++ es)
            rw [run_loop_wrap hcs hk hstep hend hk', observe, run_loop_wrap hcs' hask heq hend' hask', heq']
            exact ⟨es ++ es', by simp [observe, entered], Tick.entering hes hes', by simp [isComplete]⟩

/-- Running an observed tree runs the tree, and notes what a tick may have. -/
theorem run_observe (t : Tree α σ) : RunsObserved t := by
  induction t with
  | leaf b =>
    intro dt p w log
    exact ⟨[(p, .run (Block.run dt b w).1)], rfl, Tick.held (Held.ran p _), fun _ => Held.ran p _⟩
  | sequence cs i e ih => exact sequence_runsObserved ih i e
  | loop k cs i s e ih => exact loop_runsObserved ih k i s e

/-! ## Creating and destroying -/

section

variable {call : Tree α σ → σ → Tree α σ × σ}
  {call' : Tree (Observed Place α) (Observation Place σ) → Observation Place σ →
    Tree (Observed Place α) (Observation Place σ) × Observation Place σ} {event : Event}

omit [Block α σ] in
/-- A call that reaches every leaf of each child in turn reaches every leaf of the children. -/
theorem inTurn_observe {cs : List (Tree α σ)}
    (h : ∀ c ∈ cs, ∀ p w log, call' (c.observe p) ⟨w, log⟩ =
      ((call c w).1.observe p, ⟨(call c w).2, log ++ (c.places p).map fun place => (place, event)⟩))
    (p : Place) (first : Nat) (w : σ) (log : List (Place × Event)) :
    inTurn call' (observeFrom p first cs) ⟨w, log⟩ = (observeFrom p first (inTurn call cs w).1,
      ⟨(inTurn call cs w).2, log ++ (placesFrom p first cs).map fun place => (place, event)⟩) := by
  induction cs generalizing first w log with
  | nil => simp [observeFrom, inTurn, placesFrom, leavesOf]
  | cons c cs ih =>
    have hc := h c (by simp) (p ++ [first]) w log
    have hcs := ih (fun d hd => h d (by simp [hd])) (first + 1)
    rw [observeFrom, inTurn, hc, hcs, placesFrom_cons, List.map_append, ← List.append_assoc]
    rfl

end

/-- Creating the observed tree is creating the tree, and every leaf is created once, from left to right, wherever the cursors stand. -/
theorem create_observe (t : Tree α σ) : ∀ (p : Place) (w : σ) (log : List (Place × Event)),
    create (t.observe p) ⟨w, log⟩ =
      ((create t w).1.observe p, ⟨(create t w).2, log ++ (t.places p).map fun place => (place, .create)⟩) := by
  induction t with
  | leaf b =>
    intro p w log
    rfl
  | sequence cs i e ih =>
    intro p w log
    simp only [observe, create, createAll_eq, inTurn_observe ih]
    rfl
  | loop k cs i s e ih =>
    intro p w log
    simp only [observe, create, createAll_eq, inTurn_observe ih]
    rfl

/-- Destroying the observed tree is destroying the tree, and every leaf is destroyed once, from left to right. -/
theorem destroy_observe (t : Tree α σ) : ∀ (p : Place) (w : σ) (log : List (Place × Event)),
    destroy (t.observe p) ⟨w, log⟩ =
      ((destroy t w).1.observe p, ⟨(destroy t w).2, log ++ (t.places p).map fun place => (place, .destroy)⟩) := by
  induction t with
  | leaf b =>
    intro p w log
    rfl
  | sequence cs i e ih =>
    intro p w log
    simp only [observe, destroy, destroyAll_eq, inTurn_observe ih]
    rfl
  | loop k cs i s e ih =>
    intro p w log
    simp only [observe, destroy, destroyAll_eq, inTurn_observe ih]
    rfl

end Tree

end BlockScript
