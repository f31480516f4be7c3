import BlockScript.Proofs.Block.Renewal
import BlockScript.Proofs.Context.Attendance

/-!
# The length of a tick

Built-in blocks take their time from the clock of the host, never from the length of the tick that they are run with. A leaf runs alike
in ticks of any two lengths, so a tree of leaves does (`Tree.run_anyLength`), so does a runner, and so do contexts in whole histories of
operations (`performAll_timed`). Attended blocks are built-in blocks of another world, so the same holds of every single call of a
callback, poll of a test and reading of a clock (`lengths_unseen`).
-/

namespace BlockScript

section

variable {σ : Type v}

/-- A leaf is the same one after calls of any two lengths. -/
theorem Primitive.mirror_anyLength : Mirror (fun b c : Primitive σ => b = c ∧ True) (Eq : σ → σ → Prop) fun _ _ => True :=
  Primitive.mirror_self (fun _ _ => trivial) fun {b} _ => b.respects_eq

/-- What is true of everything is true of the leaves and loops of a tree. -/
theorem Tree.all_true {α : Type u} (t : Tree α σ) : All (fun _ => True) (fun _ => True) t := by
  induction t with
  | leaf b => exact .leaf trivial
  | sequence cs i e ih => exact .sequence ih
  | loop k cs i s e ih => exact .loop trivial ih

/-- A tree of built-in blocks runs alike in ticks of any two lengths. -/
theorem Tree.run_anyLength (dt dt' : Float) (t : BuiltIn σ) (w : σ) : t.run dt w = t.run dt' w := by
  have hmirror : Mirror (Mirrors (fun b c : Primitive σ => b = c ∧ True) fun k l : LoopKind σ => k = l ∧ True) (Eq : σ → σ → Prop)
      fun _ _ => True := by
    refine Tree.mirror Primitive.mirror_anyLength ?_
    rintro k _ ⟨rfl, -⟩ w _ rfl
    exact ⟨rfl, rfl⟩
  have hrun := @hmirror.run dt dt' trivial t t w w (Mirrors.self t.all_true) rfl
  exact Prod.ext hrun.answer (Prod.ext hrun.block.eq.1 hrun.world)

/-- A tick of built-in roots is the same for all lengths. -/
theorem Runner.advance_anyLength (dt dt' : Float) (roots : List (Nat × BuiltIn σ)) (w : σ) :
    advance dt roots w = advance dt' roots w := by
  induction roots generalizing w with
  | nil => rfl
  | cons x newer ih =>
    have hrun : ∀ w, Block.run dt x.2 w = Block.run dt' x.2 w := x.2.run_anyLength dt dt'
    simp only [advance, ih, hrun]

/-- A tick of a runner with built-in roots is the same for all lengths. -/
theorem Runner.process_anyLength (dt dt' : Float) (r : Runner (BuiltIn σ)) (w : σ) : r.process dt w = r.process dt' w := by
  rw [process, process, advance_anyLength dt dt']

end

/-! ## Histories -/

namespace Operation

variable {β : Type u} {σ : Type v}

/-- The operation, with a tick of another length if it is a tick. -/
def withDelta (dt : Float) : Operation β σ → Operation β σ
  | process _ => process dt
  | op => op

/-- It makes no difference whether an operation is attended first or gets its length first. -/
theorem attend_withDelta (dt : Float) (op : Operation (BuiltIn σ) σ) : (op.withDelta dt).attend = op.attend.withDelta dt := by
  cases op <;> rfl

end Operation

/-- The history in which the tick that is the `n`th operation, counted from zero, has the length `deltas n`. -/
def timed {ι : Type w} {β : Type u} {σ : Type v} (deltas : Nat → Float) (ops : List (ι × Operation β σ)) : List (ι × Operation β σ) :=
  ops.mapIdx fun n x => (x.1, x.2.withDelta (deltas n))

section

variable {ι : Type w} [DecidableEq ι] {σ : Type v}

/-- An operation is the same whatever its length. -/
theorem Context.perform_withDelta (c : Context (Primitive σ) σ) (w : σ) (op : Operation (BuiltIn σ) σ) (dt : Float) :
    c.perform w (op.withDelta dt) = c.perform w op := by
  cases op with
  | process dt' => simp only [Operation.withDelta, perform, process, Runner.process_anyLength dt dt']
  | _ => rfl

/-- Giving the ticks of a history other lengths changes nothing that comes of it. -/
theorem performAll_timed (deltas : Nat → Float) (contexts : ι → Context (Primitive σ) σ) (w : σ)
    (ops : List (ι × Operation (BuiltIn σ) σ)) : performAll contexts w (timed deltas ops) = performAll contexts w ops := by
  induction ops generalizing deltas contexts w with
  | nil => rfl
  | cons x ops ih =>
    obtain ⟨i, op⟩ := x
    have htimed : timed deltas ((i, op) :: ops) = (i, op.withDelta (deltas 0)) :: timed (fun n => deltas (n + 1)) ops := List.mapIdx_cons
    simp only [htimed, performAll_cons, Context.perform_withDelta, ih]

omit [DecidableEq ι] in
/-- The first operations of a timed history are the first ones of the history, timed. -/
theorem take_timed {β : Type u} (deltas : Nat → Float) (ops : List (ι × Operation β σ)) (n : Nat) :
    (timed deltas ops).take n = timed deltas (ops.take n) := by
  refine List.ext_getElem? fun m => ?_
  simp only [timed, List.getElem?_take, List.getElem?_mapIdx]
  split <;> rfl

/-- A history is attended alike however it is timed. -/
theorem attendAll_timed (deltas : Nat → Float) (contexts : ι → Context (Primitive σ) σ) (w : σ)
    (ops : List (ι × Operation (BuiltIn σ) σ)) : attendAll contexts w (timed deltas ops) = attendAll contexts w ops := by
  have hattend : (timed deltas ops).map (fun x => (x.1, x.2.attend)) = timed deltas (ops.map fun x => (x.1, x.2.attend)) := by
    refine List.ext_getElem? fun m => ?_
    simp [timed, Operation.attend_withDelta, Function.comp_def]
  rw [attendAll, hattend, performAll_timed, attendAll]

/-- The lengths of ticks have no influence on built-in blocks. Take any contexts with roots made of built-in blocks, any history of
operations on them, and any two ways to give lengths to its ticks. After any number `n` of operations the answers so far, the registered
roots with all their state and the world, records included, are the same in both. So are the deeds: the calls of callbacks, the polls
of tests and the readings of clocks in their order, each with the world that it found. Noting them down changes nothing of the
history. -/
theorem lengths_unseen (contexts : ι → Context (Primitive σ) σ) (w : σ) (ops : List (ι × Operation (BuiltIn σ) σ))
    (deltas deltas' : Nat → Float) (n : Nat) :
    let one := (timed deltas ops).take n
    let other := (timed deltas' ops).take n
    performAll contexts w one = performAll contexts w other ∧ deedsOf contexts w one = deedsOf contexts w other ∧
      (attendAll contexts w one).1 = (performAll contexts w one).1 ∧
      (∀ i, ((attendAll contexts w one).2.1 i).runner = ((performAll contexts w one).2.1 i).runner.attend) ∧
      (attendAll contexts w one).2.2.world = (performAll contexts w one).2.2 := by
  refine ⟨?_, ?_, performAll_attend contexts w _⟩
  · rw [take_timed, take_timed, performAll_timed, performAll_timed]
  · rw [deedsOf, deedsOf, take_timed, take_timed, attendAll_timed, attendAll_timed]

end

end BlockScript
