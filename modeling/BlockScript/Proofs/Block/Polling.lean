import BlockScript.Block.Primitive
import BlockScript.Proofs.Block.Owner
import BlockScript.Proofs.Block.Parts

/-!
# When a loop asks its test

A loop is watched by noting down what happens in each call on it: its test is asked, and its children are entered, stepped and left.
Watching changes nothing of the loop (`Tree.Notes`). There are only a few ways in which a call can go (`Tree.LoopEntry`,
`Tree.LoopPass`), so in every history that keeps the block contract the test is asked when the loop is entered, at the start of each
tick in which the loop still has something to do, and once more when the last child of the body was left
(`test_asked_on_schedule`). The test and the children may do anything to the world, and children may fail.
-/

namespace BlockScript

/-! ## Watching -/

/-- What happens in a call on a loop: the test is asked whether to stop, or a child, told by its index, is called. A child that was run
is asked at once whether it is complete. -/
inductive Incident where
  | asked (stop : Bool)
  | entered (child : Nat) (outcome : Outcome)
  | stepped (child : Nat) (outcome : Outcome) (complete : Bool)
  | left (child : Nat)

namespace Incident

/-- The answer of the test, where it was asked. -/
def answer? : Incident → Option Bool
  | asked stop => some stop
  | _ => none

end Incident

/-- The answers of the test, in order. -/
def answers (incidents : List Incident) : List Bool := incidents.filterMap (·.answer?)

/-- A world beside which incidents are noted down. -/
structure Watch (σ : Type v) where
  world : σ
  incidents : List Incident

/-- A child under its index. -/
structure WatchedChild (α : Type u) (σ : Type v) where
  index : Nat
  block : Tree α σ

section

variable {α : Type u} {σ : Type v}

instance [Block α σ] : Block (WatchedChild α σ) (Watch σ) where
  create b v := let (block, w) := b.block.create v.world; ({ b with block }, { v with world := w })
  destroy b v := let (block, w) := b.block.destroy v.world; ({ b with block }, { v with world := w })
  enter b v := let (r, block, w) := b.block.enter v.world; (r, { b with block }, ⟨w, v.incidents ++ [.entered b.index r]⟩)
  run dt b v :=
    let (r, block, w) := b.block.run dt v.world
    (r, { b with block }, ⟨w, v.incidents ++ [.stepped b.index r (block.isComplete w)]⟩)
  exit b v := let (block, w) := b.block.exit v.world; ({ b with block }, ⟨w, v.incidents ++ [.left b.index]⟩)
  isComplete b v := b.block.isComplete v.world
  kind b := b.block.kind

/-- The kind of loop, watched. -/
def LoopKind.watch : LoopKind σ → LoopKind (Watch σ)
  | forever => forever
  | whileTrue test => whileTrue fun v => ((test v.world).1, ⟨(test v.world).2, v.incidents ++ [.asked !(test v.world).1]⟩)
  | untilTrue test => untilTrue fun v => ((test v.world).1, ⟨(test v.world).2, v.incidents ++ [.asked (test v.world).1]⟩)

/-- The test of a watched loop answers as it does unwatched, and the answer is noted. -/
theorem LoopKind.shouldExit_watch {k : LoopKind σ} (hk : k ≠ .forever) (w : σ) (log : List Incident) :
    k.watch.shouldExit ⟨w, log⟩ = ((k.shouldExit w).1, ⟨(k.shouldExit w).2, log ++ [.asked (k.shouldExit w).1]⟩) := by
  cases k with
  | forever => exact absurd rfl hk
  | whileTrue test => rfl
  | untilTrue test => rfl

end

namespace Tree

variable {α : Type u} {σ : Type v}

/-- The children of a composite, each a leaf under its index. -/
def watchAll (cs : List (Tree α σ)) : List (Tree (WatchedChild α σ) (Watch σ)) := cs.mapIdx fun i c => leaf ⟨i, c⟩

/-- The tree with its children watched. A leaf is watched itself. -/
def watch : Tree α σ → Tree (WatchedChild α σ) (Watch σ)
  | leaf b => leaf ⟨0, leaf b⟩
  | sequence cs i e => sequence (watchAll cs) i e
  | loop k cs i s e => loop k.watch (watchAll cs) i s e

/-! ### Children -/

theorem getElem?_watchAll (cs : List (Tree α σ)) (i : Nat) : (watchAll cs)[i]? = cs[i]?.map fun c => leaf ⟨i, c⟩ :=
  List.getElem?_mapIdx

theorem set_watchAll (cs : List (Tree α σ)) (i : Nat) (c : Tree α σ) :
    (watchAll cs).set i (leaf ⟨i, c⟩) = watchAll (cs.set i c) :=
  List.mapIdx_set.symm

theorem length_watchAll (cs : List (Tree α σ)) : (watchAll cs).length = cs.length := List.length_mapIdx

theorem watchAll_ne_nil {cs : List (Tree α σ)} (h : cs ≠ []) : watchAll cs ≠ [] := by
  rwa [ne_eq, ← List.length_eq_zero_iff, length_watchAll, List.length_eq_zero_iff]

/-- Whether an attempt left a child entered does not depend on whether it is watched. -/
theorem entered_watchAll (r : Outcome) (cs : List (Tree α σ)) (i : Nat) : entered r (watchAll cs) i = entered r cs i := by
  rw [entered, entered, length_watchAll]

variable [Block α σ]

/-- What is noted down of an attempt to enter a child. -/
def tried (cs : List (Tree α σ)) (i : Nat) (r : Outcome) : List Incident := if i < cs.length then [.entered i r] else []

/-- Entering a watched child enters the child, and the attempt is noted. -/
theorem enterAt_watchAll (cs : List (Tree α σ)) (i : Nat) (w : σ) (log : List Incident) :
    enterAt (watchAll cs) i ⟨w, log⟩ =
      ((enterAt cs i w).1, watchAll (enterAt cs i w).2.1, ⟨(enterAt cs i w).2.2, log ++ tried cs i (enterAt cs i w).1⟩) := by
  rw [enterAt_eq, enterAt_eq, getElem?_watchAll, tried]
  cases hc : cs[i]? with
  | none => simp [Nat.not_lt.mpr (List.getElem?_eq_none_iff.mp hc)]
  | some c =>
    obtain ⟨hi, -⟩ := List.getElem?_eq_some_iff.mp hc
    simp only [Option.map_some, if_pos hi, ← set_watchAll]
    rfl

/-- Exiting a watched child exits the child, which is noted. -/
theorem exitAt_watchAll (cs : List (Tree α σ)) {i : Nat} (hi : i < cs.length) (w : σ) (log : List Incident) :
    exitAt (watchAll cs) i ⟨w, log⟩ = (watchAll (exitAt cs i w).1, ⟨(exitAt cs i w).2, log ++ [.left i]⟩) := by
  rw [exitAt_eq, exitAt_eq, getElem?_watchAll, List.getElem?_eq_getElem hi]
  simp only [Option.map_some, ← set_watchAll]
  rfl

/-- What is noted down of the step of a child, by what the step answers. -/
inductive ChildStep (i : Nat) : Except BlockError Bool → List Incident → Prop where
  | failed (e : BlockError) (complete : Bool) : ChildStep i (.error e) [.stepped i (.error e) complete]
  | busy : ChildStep i (.ok false) [.stepped i (.ok ()) false]
  | done : ChildStep i (.ok true) [.stepped i (.ok ()) true, .left i]

/-- A watched child's share of a tick is that of the child, and its step is noted. -/
theorem stepChild_watched (dt : Float) (i : Nat) (c : Tree α σ) (w : σ) (log : List Incident) :
    ∃ step, ChildStep i (stepChild dt c w).1 step ∧ stepChild dt (leaf (⟨i, c⟩ : WatchedChild α σ)) ⟨w, log⟩ =
      ((stepChild dt c w).1, leaf ⟨i, (stepChild dt c w).2.1⟩, ⟨(stepChild dt c w).2.2, log ++ step⟩) := by
  have hrun : run dt (leaf (⟨i, c⟩ : WatchedChild α σ)) ⟨w, log⟩ = ((run dt c w).1, leaf ⟨i, (run dt c w).2.1⟩,
    ⟨(run dt c w).2.2, log ++ [.stepped i (run dt c w).1 ((run dt c w).2.1.isComplete (run dt c w).2.2)]⟩) := rfl
  simp only [stepChild, hrun]
  rcases run dt c w with ⟨e | ⟨⟩, c', w'⟩
  · exact ⟨_, .failed e (c'.isComplete w'), rfl⟩
  · have hread : ∀ log, isComplete (leaf (⟨i, c'⟩ : WatchedChild α σ)) ⟨w', log⟩ = c'.isComplete w' := fun _ => rfl
    simp only [hread]
    cases c'.isComplete w' with
    | false => exact ⟨_, .busy, rfl⟩
    | true =>
      refine ⟨_, .done, ?_⟩
      simp only [if_true, exit, Block.exit, List.append_assoc, List.singleton_append]

/-- Running a watched child runs the child, and its step is noted. -/
theorem runAt_watchAll (dt : Float) (cs : List (Tree α σ)) {i : Nat} (hi : i < cs.length) (w : σ) (log : List Incident) :
    ∃ step, ChildStep i (runAt dt cs i w).1 step ∧ runAt dt (watchAll cs) i ⟨w, log⟩ =
      ((runAt dt cs i w).1, watchAll (runAt dt cs i w).2.1, ⟨(runAt dt cs i w).2.2, log ++ step⟩) := by
  obtain ⟨step, hstep, heq⟩ := stepChild_watched dt i cs[i] w log
  refine ⟨step, ?_, ?_⟩
  · rwa [runAt_eq, List.getElem?_eq_getElem hi]
  · rw [runAt_eq, runAt_eq, getElem?_watchAll, List.getElem?_eq_getElem hi]
    simp only [Option.map_some, heq, set_watchAll]

omit [Block α σ] in
/-- A call on each child in turn that notes nothing down. -/
theorem inTurn_watchAll (call : Tree α σ → σ → Tree α σ × σ)
    {call' : Tree (WatchedChild α σ) (Watch σ) → Watch σ → Tree (WatchedChild α σ) (Watch σ) × Watch σ} {log : List Incident}
    (hcall : ∀ i c w, call' (leaf ⟨i, c⟩) ⟨w, log⟩ = (leaf ⟨i, (call c w).1⟩, ⟨(call c w).2, log⟩)) (cs : List (Tree α σ)) (w : σ) :
    inTurn call' (watchAll cs) ⟨w, log⟩ = (watchAll (inTurn call cs w).1, ⟨(inTurn call cs w).2, log⟩) := by
  suffices h : ∀ f : Nat → Nat, inTurn call' (cs.mapIdx fun i c => leaf ⟨f i, c⟩) ⟨w, log⟩ =
      ((inTurn call cs w).1.mapIdx fun i c => leaf ⟨f i, c⟩, ⟨(inTurn call cs w).2, log⟩) from h id
  induction cs generalizing w with
  | nil => intro f; rfl
  | cons c cs ih =>
    intro f
    simp only [List.mapIdx_cons, inTurn, hcall, ih]

/-! ### Calls on a loop -/

/-- What is noted down when a loop with `n` children is entered, and whether the loop is complete then. -/
inductive LoopEntry (n : Nat) : List Incident → Bool → Prop where
  | stopped : LoopEntry n [.asked true] true
  | empty : n = 0 → LoopEntry n [.asked false] false
  | started (r : Outcome) : 0 < n → LoopEntry n [.asked false, .entered 0 r] false

/-- What is noted down in a tick of a loop with `n` children that is not complete, and whether the loop is complete then. -/
inductive LoopPass (n : Nat) : List Incident → Bool → Prop where
  | stopped : LoopPass n [.asked true] true
  | retried (i : Nat) (r : Outcome) : LoopPass n [.asked false, .entered i r] false
  | failed (i : Nat) (e : BlockError) (complete : Bool) : LoopPass n [.asked false, .stepped i (.error e) complete] false
  | busy (i : Nat) : LoopPass n [.asked false, .stepped i (.ok ()) false] false
  | moved (i : Nat) (r : Outcome) : i + 1 < n → LoopPass n [.asked false, .stepped i (.ok ()) true, .left i, .entered (i + 1) r] false
  | finished (i : Nat) : i + 1 = n → LoopPass n [.asked false, .stepped i (.ok ()) true, .left i, .asked true] true
  | wrapped (i : Nat) (r : Outcome) : i + 1 = n →
      LoopPass n [.asked false, .stepped i (.ok ()) true, .left i, .asked false, .entered 0 r] false

/-- A loop whose cursor is at one of its `n` children if it goes on, with a mark whether it is complete. -/
inductive LoopAt (k : LoopKind σ) (n : Nat) (s : Bool) : Tree α σ → Prop where
  | mk {cs : List (Tree α σ)} {i : Nat} {e : Bool} : cs.length = n → (s = false → 0 < n → i < n) → (e = true → i < n) →
      LoopAt k n s (loop k cs i s e)

variable {k : LoopKind σ} {n : Nat} {s : Bool} {t : Tree α σ}

/-- A call on a watched tree does what it does on the tree, and `incidents` are noted down. -/
def Notes (call : OwnerCall) (t : Tree α σ) (w : σ) (incidents : List Incident) : Prop :=
  call.make t.watch ⟨w, []⟩ = ((call.make t w).1, (call.make t w).2.1.watch, ⟨(call.make t w).2.2, incidents⟩)

omit [Block α σ] in
/-- A child that an attempt left entered is there. -/
theorem lt_of_entered {cs : List (Tree α σ)} {i : Nat} {r : Outcome} (h : entered r cs i = true) : i < cs.length := by
  simp only [entered, Bool.and_eq_true, decide_eq_true_eq] at h
  exact h.2

/-- After an attempt to enter the child at the cursor. -/
theorem LoopAt.attempted {cs : List (Tree α σ)} {i : Nat} (hn : cs.length = n) (hi : 0 < n → i < n) (w : σ) :
    LoopAt k n false (loop k (enterAt cs i w).2.1 i false (entered (enterAt cs i w).1 (enterAt cs i w).2.1 i)) :=
  ⟨(length_enterAt cs i w).trans hn, fun _ => hi, fun h => hn ▸ length_enterAt cs i w ▸ lt_of_entered h⟩

/-- Entering a watched loop notes how a loop is entered, and is otherwise entering the loop. -/
theorem enter_notes (hk : k ≠ .forever) (ht : LoopAt k n s t) (w : σ) :
    ∃ incidents complete, LoopEntry n incidents complete ∧ Notes .enter t w incidents ∧ LoopAt k n complete (t.enter w).2.1 := by
  obtain @⟨cs, i, e, rfl, -, -⟩ := ht
  have hstop := k.shouldExit_watch hk w []
  simp only [Notes, OwnerCall.make, Block.enter, watch]
  rcases hkw : k.shouldExit w with ⟨_ | _, w'⟩ <;> rw [hkw] at hstop
  · rw [enter_loop_start hstop, enter_loop_start hkw, enterAt_watchAll, entered_watchAll]
    refine ⟨[.asked false] ++ tried cs 0 (enterAt cs 0 w').1, false, ?_, rfl, .attempted rfl id w'⟩
    rcases Nat.eq_zero_or_pos cs.length with hn | hn
    · rw [tried, if_neg (by omega)]
      exact .empty hn
    · rw [tried, if_pos hn]
      exact .started _ hn
  · rw [enter_loop_stop hstop, enter_loop_stop hkw]
    exact ⟨_, _, .stopped, rfl, rfl, by simp, by simp⟩

/-- A tick of a loop that is complete or has no body. -/
theorem run_notes_idle (dt : Float) (ht : LoopAt k n s t) (h : s = true ∨ n = 0) (w : σ) :
    Notes (.run dt) t w [] ∧ LoopAt k n s (t.run dt w).2.1 := by
  obtain @⟨cs, i, e, rfl, hgoes, he⟩ := ht
  have hidle : s = true ∨ cs = [] := h.imp id List.length_eq_zero_iff.mp
  have hidle' : s = true ∨ watchAll cs = [] := hidle.imp id fun hcs => by rw [hcs]; rfl
  simp only [Notes, OwnerCall.make, Block.run, watch]
  rw [run_loop_idle hidle, run_loop_idle hidle']
  exact ⟨rfl, rfl, hgoes, he⟩

/-- Running a watched loop notes how a loop makes a tick, and is otherwise running the loop. -/
theorem run_notes (dt : Float) (hk : k ≠ .forever) (ht : LoopAt k n false t) (hn : 0 < n) (w : σ) :
    ∃ incidents complete, LoopPass n incidents complete ∧ Notes (.run dt) t w incidents ∧ LoopAt k n complete (t.run dt w).2.1 := by
  obtain @⟨cs, i, e, rfl, hgoes, -⟩ := ht
  have hi : i < cs.length := hgoes rfl hn
  have hcs : cs ≠ [] := List.ne_nil_of_length_pos hn
  have hcs' := watchAll_ne_nil hcs
  have hstop := k.shouldExit_watch hk w []
  simp only [Notes, OwnerCall.make, Block.run, watch]
  rcases hkw : k.shouldExit w with ⟨_ | _, w'⟩ <;> rw [hkw] at hstop
  · cases e with
    | false =>
      rw [run_loop_retry hcs hkw, run_loop_retry hcs' hstop, enterAt_watchAll, entered_watchAll, tried, if_pos hi]
      exact ⟨_, _, .retried i _, rfl, .attempted rfl (fun _ => hi) w'⟩
    | true =>
      obtain ⟨step, hstep, hwatch⟩ := runAt_watchAll dt cs hi w' [.asked false]
      rcases hr : runAt dt cs i w' with ⟨r, ds, w''⟩
      rw [hr] at hstep hwatch
      have hlen : ds.length = cs.length := length_of_runAt hr
      cases hstep with
      | failed err complete =>
        rw [run_loop_error hcs hkw hr, run_loop_error hcs' hstop hwatch]
        exact ⟨_, _, .failed i err complete, rfl, hlen, fun _ _ => hi, fun _ => hi⟩
      | busy =>
        rw [run_loop_busy hcs hkw hr, run_loop_busy hcs' hstop hwatch]
        exact ⟨_, _, .busy i, rfl, hlen, fun _ _ => hi, fun _ => hi⟩
      | done =>
        rcases Nat.lt_or_ge (i + 1) cs.length with hnext | hlast
        · have hnext' : i + 1 < ds.length := hlen ▸ hnext
          rw [run_loop_next hcs hkw hr hnext', run_loop_next hcs' hstop hwatch (by rwa [length_watchAll]), enterAt_watchAll,
            entered_watchAll, tried, if_pos hnext']
          exact ⟨_, _, .moved i _ hnext, rfl, .attempted hlen (fun _ => hnext) w''⟩
        · have hlast' : ds.length ≤ i + 1 := hlen ▸ hlast
          have hstop' := k.shouldExit_watch hk w'' ([.asked false] ++ [.stepped i (.ok ()) true, .left i])
          rcases hkw' : k.shouldExit w'' with ⟨_ | _, w₃⟩ <;> rw [hkw'] at hstop'
          · rw [run_loop_wrap hcs hkw hr hlast' hkw', run_loop_wrap hcs' hstop hwatch (by rwa [length_watchAll]) hstop',
              enterAt_watchAll, entered_watchAll, tried, if_pos (hlen ▸ hn)]
            exact ⟨_, _, .wrapped i _ (by omega), rfl, .attempted hlen id w₃⟩
          · rw [run_loop_finish hcs hkw hr hlast' hkw', run_loop_finish hcs' hstop hwatch (by rwa [length_watchAll]) hstop']
            exact ⟨_, _, .finished i (by omega), rfl, hlen, by simp, by simp⟩
  · rw [run_loop_stop hcs hkw, run_loop_stop hcs' hstop]
    exact ⟨_, _, .stopped, rfl, rfl, by simp, fun _ => hi⟩

/-- Exiting a watched loop asks nothing, and is otherwise exiting the loop. -/
theorem exit_notes (ht : LoopAt k n s t) (w : σ) :
    ∃ incidents, answers incidents = [] ∧ Notes .exit t w incidents ∧ LoopAt k n s (t.exit w).1 := by
  obtain @⟨cs, i, e, rfl, hgoes, he⟩ := ht
  simp only [Notes, OwnerCall.make, Block.exit, watch]
  cases e with
  | false => exact ⟨[], rfl, rfl, rfl, hgoes, he⟩
  | true =>
    simp only [exit, if_true]
    rw [exitAt_watchAll cs (he rfl)]
    exact ⟨[.left i], rfl, rfl, length_exitAt cs i w, hgoes, by simp⟩

/-- Creating a watched loop notes nothing. -/
theorem create_notes (ht : LoopAt k n s t) (w : σ) : Notes .create t w [] ∧ LoopAt k n s (t.create w).1 := by
  obtain @⟨cs, i, e, rfl, hgoes, he⟩ := ht
  simp only [Notes, OwnerCall.make, Block.create, watch, create, createAll_eq]
  rw [inTurn_watchAll create fun _ _ _ => rfl]
  exact ⟨rfl, length_inTurn create cs w, hgoes, he⟩

/-- Destroying a watched loop notes nothing. -/
theorem destroy_notes (ht : LoopAt k n s t) (w : σ) : Notes .destroy t w [] ∧ LoopAt k n s (t.destroy w).1 := by
  obtain @⟨cs, i, e, rfl, hgoes, he⟩ := ht
  simp only [Notes, OwnerCall.make, Block.destroy, watch, destroy, destroyAll_eq]
  rw [inTurn_watchAll destroy fun _ _ _ => rfl]
  exact ⟨rfl, length_inTurn destroy cs w, hgoes, he⟩

end Tree

/-! ## Histories -/

/-- A call on a loop: whether the loop was complete before it, what happened in it, how it ended, and whether the loop is complete
after it. -/
structure LoopCall where
  call : OwnerCall
  wasComplete : Bool
  incidents : List Incident
  outcome : Outcome
  complete : Bool

/-- The calls of the activation that the last of them belongs to. Entering begins an activation. -/
def LoopCall.follow (past : List LoopCall) (x : LoopCall) : List LoopCall :=
  match x.call with
  | .enter => [x]
  | _ => past ++ [x]

/-- The answers of the test in some calls, in order. -/
def answersIn (past : List LoopCall) : List Bool := past.flatMap fun x => answers x.incidents

section

variable {α : Type u} {σ : Type v} [Block α σ]

/-- A call on a tree in a world. What happens in it is seen by watching the tree. -/
def LoopCall.of (call : OwnerCall) (t : Tree α σ) (w : σ) : LoopCall where
  call := call
  wasComplete := t.isComplete w
  incidents := (call.make t.watch ⟨w, []⟩).2.2.incidents
  outcome := (call.make t w).1
  complete := (call.make t w).2.1.isComplete (call.make t w).2.2

/-- What an owner that keeps the block contract can make of a tree: the tree as it then is, the calls since it was last entered, and
whether it is active. Before every call the world may have become any other. -/
inductive LoopHistory (t : Tree α σ) : Tree α σ → List LoopCall → Bool → Prop where
  | fresh : LoopHistory t t [] false
  | call {u : Tree α σ} {past : List LoopCall} {active : Bool} (call : OwnerCall) (w : σ) : LoopHistory t u past active →
      call.Allowed active →
      LoopHistory t (call.make u w).2.1 (LoopCall.follow past (.of call u w)) (call.leavesActive (call.make u w).1)

end

/-- When the test of a loop with `n` children is asked in a call. Entering asks once, before a child is entered. A tick asks nothing if
the loop was complete or has no body; otherwise it asks once at its start, and it asks again exactly if the last child was left, which
then was stepped, found complete and left just before. Nothing else asks. -/
def LoopCall.Scheduled (n : Nat) (x : LoopCall) : Prop :=
  match x.call with
  | .enter => ∃ stop rest, x.incidents = .asked stop :: rest ∧ answers rest = []
  | .run _ =>
    if x.wasComplete = true ∨ n = 0 then x.incidents = []
    else ∃ stop rest, x.incidents = .asked stop :: rest ∧
      ((.left (n - 1) ∉ rest ∧ answers rest = []) ∨
        ∃ stop' tail, rest = .stepped (n - 1) (.ok ()) true :: .left (n - 1) :: .asked stop' :: tail ∧ .left (n - 1) ∉ tail ∧
          answers tail = [])
  | _ => answers x.incidents = []

/-- The contract of the test of a loop with `n` children, in the calls of one activation after which the loop is `complete` or not. -/
structure TestContract (n : Nat) (past : List LoopCall) (complete : Bool) : Prop where
  /-- Only the first call enters. -/
  entered_once : ∀ x ∈ past.tail, x.call ≠ .enter
  scheduled : ∀ x ∈ past, x.Scheduled n
  /-- Every answer before the last one was to go on. -/
  went_on : ∀ stop ∈ (answersIn past).dropLast, stop = false
  complete_iff : complete = true ↔ (answersIn past).getLast? = some true
  /-- Without a body only entering asks, and a loop that is not complete then never is. -/
  empty_body : n = 0 → ∀ x ∈ past, (x.call ≠ .enter → answers x.incidents = []) ∧ x.complete = complete

/-- A loop that is entered asks its test first, and once. -/
theorem Tree.LoopEntry.answers_eq {n : Nat} {incidents : List Incident} {complete : Bool} (h : Tree.LoopEntry n incidents complete) :
    ∃ rest, incidents = .asked complete :: rest ∧ answers rest = [] := by
  cases h with
  | stopped => exact ⟨_, rfl, rfl⟩
  | empty hn => exact ⟨_, rfl, rfl⟩
  | started r hn => exact ⟨_, rfl, rfl⟩

/-- A tick that asks at all asks until the answer is to stop, or until it is over. -/
theorem Tree.LoopPass.answers_eq {n : Nat} {incidents : List Incident} {complete : Bool} (h : Tree.LoopPass n incidents complete) :
    answers incidents = [complete] ∨ answers incidents = [false, complete] := by
  cases h with
  | finished i hi => exact .inr rfl
  | wrapped i r hi => exact .inr rfl
  | _ => exact .inl rfl

/-- A loop that runs asks its test first, and once more only after its last child has been left. -/
theorem Tree.LoopPass.scheduled {n : Nat} {incidents : List Incident} {complete : Bool} (h : Tree.LoopPass n incidents complete) :
    ∃ stop rest, incidents = .asked stop :: rest ∧
      ((.left (n - 1) ∉ rest ∧ answers rest = []) ∨
        ∃ stop' tail, rest = .stepped (n - 1) (.ok ()) true :: .left (n - 1) :: .asked stop' :: tail ∧ .left (n - 1) ∉ tail ∧
          answers tail = []) := by
  cases h with
  | finished i hi =>
    obtain rfl : i = n - 1 := by omega
    exact ⟨_, _, rfl, .inr ⟨_, _, rfl, by simp, rfl⟩⟩
  | wrapped i r hi =>
    obtain rfl : i = n - 1 := by omega
    exact ⟨_, _, rfl, .inr ⟨_, _, rfl, by simp, rfl⟩⟩
  | moved i r hi =>
    have hne : n - 1 ≠ i := by omega
    exact ⟨_, _, rfl, .inl ⟨by simp [hne], rfl⟩⟩
  | _ => exact ⟨_, _, rfl, .inl ⟨by simp, rfl⟩⟩

namespace TestContract

variable {n : Nat} {past : List LoopCall} {s s' : Bool} {x : LoopCall}

theorem fresh : TestContract n [] false := ⟨by simp, by simp, by simp [answersIn], by simp [answersIn], by simp⟩

/-- An activation that was just begun. -/
theorem entered (hcall : x.call = .enter) (hx : Tree.LoopEntry n x.incidents s') (hcomplete : x.complete = s') :
    TestContract n (LoopCall.follow past x) s' := by
  obtain ⟨rest, hincidents, hrest⟩ := hx.answers_eq
  have hanswers : answersIn [x] = [s'] := by
    simp only [answersIn, List.flatMap_singleton, hincidents]
    simpa [answers, Incident.answer?] using hrest
  rw [LoopCall.follow, hcall]
  refine ⟨by simp, ?_, by simp [hanswers], by simp [hanswers], ?_⟩
  · rw [List.forall_mem_singleton, LoopCall.Scheduled, hcall]
    exact ⟨s', rest, hincidents, hrest⟩
  · rintro - y hy
    obtain rfl := List.mem_singleton.mp hy
    exact ⟨fun h => absurd hcall h, hcomplete⟩

/-- As long as the loop is not complete, every answer was to go on. -/
theorem goes_on (h : TestContract n past false) : ∀ stop ∈ answersIn past, stop = false := by
  intro stop hstop
  cases stop with
  | false => rfl
  | true =>
    have hne : answersIn past ≠ [] := List.ne_nil_of_mem hstop
    rw [← List.dropLast_concat_getLast hne, List.mem_append, List.mem_singleton] at hstop
    rcases hstop with hstop | hlast
    · exact absurd (h.went_on true hstop) (by simp)
    · exact (h.complete_iff.mpr (by rw [List.getLast?_eq_some_getLast hne, ← hlast])).symm

/-- The same activation after a further call. -/
theorem followed (h : TestContract n past s) (hcall : x.call ≠ .enter) (hx : x.Scheduled n) (hcomplete : x.complete = s')
    (hanswers : (answers x.incidents = [] ∧ s' = s) ∨
      0 < n ∧ s = false ∧ (answers x.incidents = [s'] ∨ answers x.incidents = [false, s'])) :
    TestContract n (LoopCall.follow past x) s' := by
  have hfollow : LoopCall.follow past x = past ++ [x] := by
    unfold LoopCall.follow
    split
    · rename_i henter
      exact absurd henter hcall
    · rfl
  have happend : answersIn (past ++ [x]) = answersIn past ++ answers x.incidents := by simp [answersIn]
  rw [hfollow]
  refine ⟨?_, List.forall_mem_append.mpr ⟨h.scheduled, List.forall_mem_singleton.mpr hx⟩, ?_, ?_, ?_⟩
  · cases past with
    | nil => simp
    | cons y past => exact List.forall_mem_append.mpr ⟨h.entered_once, List.forall_mem_singleton.mpr hcall⟩
  · rw [happend]
    rcases hanswers with ⟨hnone, rfl⟩ | ⟨-, rfl, hone | htwo⟩
    · simpa [hnone] using h.went_on
    · simpa [hone] using h.goes_on
    · have hmore : ∀ stop ∈ answersIn past ++ [false], stop = false := List.forall_mem_append.mpr ⟨h.goes_on, by simp⟩
      simpa [htwo, List.dropLast_append] using hmore
  · rw [happend]
    rcases hanswers with ⟨hnone, rfl⟩ | ⟨-, rfl, hone | htwo⟩
    · simpa [hnone] using h.complete_iff
    · simp [hone]
    · simp [htwo]
  · intro hn
    rcases hanswers with ⟨hnone, rfl⟩ | ⟨hpos, -⟩
    · exact List.forall_mem_append.mpr ⟨h.empty_body hn, List.forall_mem_singleton.mpr ⟨fun _ => hnone, hcomplete⟩⟩
    · omega

end TestContract

/-! ## The contract -/

section

variable {α : Type u} {σ : Type v} [Block α σ] {k : LoopKind σ} {n : Nat} {s : Bool} {t : Tree α σ} {past : List LoopCall}

/-- A loop is complete when it has been told to stop. -/
theorem Tree.LoopAt.isComplete (h : Tree.LoopAt k n s t) (w : σ) : t.isComplete w = s := by
  cases h
  rfl

/-- What is noted down of a call is what the call tells. -/
theorem LoopCall.incidents_of {call : OwnerCall} {w : σ} {incidents : List Incident} (h : Tree.Notes call t w incidents) :
    (LoopCall.of call t w).incidents = incidents := by
  rw [LoopCall.of, h]

/-- After a call in which nothing is asked and that does not enter. -/
theorem TestContract.quiet (h : TestContract n past s) {call : OwnerCall} {w : σ} {incidents : List Incident}
    (hnotes : Tree.Notes call t w incidents) (hcall : call ≠ .enter) (hquiet : answers incidents = [])
    (hscheduled : (LoopCall.of call t w).Scheduled n) (ht : Tree.LoopAt k n s (call.make t w).2.1) :
    TestContract n (LoopCall.follow past (.of call t w)) s :=
  h.followed hcall hscheduled (ht.isComplete _) (.inl ⟨by rwa [LoopCall.incidents_of hnotes], rfl⟩)

/-- Every call keeps the contract, and watching it changes nothing. -/
theorem call_kept (hk : k ≠ .forever) (ht : Tree.LoopAt k n s t) (h : TestContract n past s) (call : OwnerCall) (w : σ) :
    ∃ s', Tree.LoopAt k n s' (call.make t w).2.1 ∧ TestContract n (LoopCall.follow past (.of call t w)) s' ∧
      Tree.Notes call t w (LoopCall.of call t w).incidents := by
  suffices hcall : ∃ s' incidents, Tree.LoopAt k n s' (call.make t w).2.1 ∧
      TestContract n (LoopCall.follow past (.of call t w)) s' ∧ Tree.Notes call t w incidents by
    obtain ⟨s', incidents, ht', h', hnotes⟩ := hcall
    exact ⟨s', ht', h', by rwa [LoopCall.incidents_of hnotes]⟩
  cases call with
  | create =>
    obtain ⟨hnotes, ht'⟩ := Tree.create_notes ht w
    exact ⟨s, [], ht', h.quiet hnotes nofun rfl (congrArg answers (LoopCall.incidents_of hnotes)) ht', hnotes⟩
  | destroy =>
    obtain ⟨hnotes, ht'⟩ := Tree.destroy_notes ht w
    exact ⟨s, [], ht', h.quiet hnotes nofun rfl (congrArg answers (LoopCall.incidents_of hnotes)) ht', hnotes⟩
  | exit =>
    obtain ⟨incidents, hquiet, hnotes, ht'⟩ := Tree.exit_notes ht w
    have hscheduled : (LoopCall.of .exit t w).Scheduled n := (congrArg answers (LoopCall.incidents_of hnotes)).trans hquiet
    exact ⟨s, incidents, ht', h.quiet hnotes nofun hquiet hscheduled ht', hnotes⟩
  | enter =>
    obtain ⟨incidents, complete, hentry, hnotes, ht'⟩ := Tree.enter_notes hk ht w
    exact ⟨complete, incidents, ht', .entered rfl (LoopCall.incidents_of hnotes ▸ hentry) (ht'.isComplete _), hnotes⟩
  | run dt =>
    have hwas : (LoopCall.of (.run dt) t w).wasComplete = s := ht.isComplete w
    by_cases hidle : s = true ∨ n = 0
    · obtain ⟨hnotes, ht'⟩ := Tree.run_notes_idle dt ht hidle w
      have hscheduled : (LoopCall.of (.run dt) t w).Scheduled n := Eq.mpr (if_pos (hwas ▸ hidle)) (LoopCall.incidents_of hnotes)
      exact ⟨s, [], ht', h.quiet hnotes nofun rfl hscheduled ht', hnotes⟩
    · obtain ⟨hs, hn⟩ := not_or.mp hidle
      obtain rfl : s = false := by simpa using hs
      obtain ⟨incidents, complete, hpass, hnotes, ht'⟩ := Tree.run_notes dt hk ht (Nat.pos_of_ne_zero hn) w
      have hincidents := LoopCall.incidents_of hnotes
      have hscheduled : (LoopCall.of (.run dt) t w).Scheduled n :=
        Eq.mpr (if_neg (hwas ▸ hidle)) (hincidents ▸ hpass.scheduled)
      exact ⟨complete, incidents, ht', h.followed nofun hscheduled (ht'.isComplete _)
        (.inr ⟨Nat.pos_of_ne_zero hn, rfl, hincidents ▸ hpass.answers_eq⟩), hnotes⟩

/-- The contract of the test of a loop. Take a loop that runs while or until a test reads true, with any body, and any history that keeps
the block contract. In the activation at hand the test is asked once on entering, once at the start of each tick in which the loop is not
complete and has a body, once more in the same tick exactly if the last child was left, and never else, so never between the step of a
child and the reading whether it is complete. No answer comes after one to stop, and the loop is complete exactly if the last answer was
to stop. Without a body only entering asks. All of this is seen by watching, which changes nothing of what any call does. -/
theorem test_asked_on_schedule (hk : k ≠ .forever) (body : List (Tree α σ)) {u : Tree α σ} {active : Bool}
    (h : LoopHistory (.repeating k body) u past active) :
    (∀ w, TestContract body.length past (u.isComplete w)) ∧
      ∀ call w, OwnerCall.Allowed call active → Tree.Notes call u w (LoopCall.of call u w).incidents := by
  suffices hkept : ∃ s, Tree.LoopAt k body.length s u ∧ TestContract body.length past s by
    obtain ⟨s, hu, hpast⟩ := hkept
    refine ⟨fun w => hu.isComplete w ▸ hpast, fun call w _ => ?_⟩
    obtain ⟨-, -, -, hnotes⟩ := call_kept hk hu hpast call w
    exact hnotes
  induction h with
  | fresh => exact ⟨false, ⟨rfl, fun _ hn => hn, nofun⟩, .fresh⟩
  | call call w _ _ ih =>
    obtain ⟨s, hu, hpast⟩ := ih
    obtain ⟨s', hu', hpast', -⟩ := call_kept hk hu hpast call w
    exact ⟨s', hu', hpast'⟩

end

/-- Goes on while the lamp is on. -/
def whileLit : LoopKind Bool := .whileTrue fun lit => (lit, lit)

/-- A lamp that is put out in the first pass: the test is asked on entering, before the step, and after the only child was left. -/
theorem test_asked_on_schedule_lamp : ∃ u past,
    LoopHistory (.repeating whileLit [.leaf (.perform not)] : BuiltIn Bool) u past true ∧ answersIn past = [false, false, true] ∧
    (∀ w, TestContract 1 past (u.isComplete w)) ∧
      ∀ call w, OwnerCall.Allowed call true → Tree.Notes call u w (LoopCall.of call u w).incidents := by
  have entered := LoopHistory.call .enter true (.fresh (t := (.repeating whileLit [.leaf (.perform not)] : BuiltIn Bool))) rfl
  have ran := LoopHistory.call (.run 1.0) true entered rfl
  have hk : whileLit ≠ .forever := by simp [whileLit]
  exact ⟨_, _, ran, rfl, test_asked_on_schedule hk _ ran⟩

end BlockScript
