import BlockScript.Proofs.Block.ChildOrder

/-!
# Loops with opposite tests

To go on while a test reads true is to go on until its opposite does. A call on a loop depends on the kind of the loop only through the
answers to whether it is to stop (`Tree.loops_alike`), so two loops that are answered alike stay alike, whatever the owner makes of them
and whatever becomes of the world between the calls (`views_eq`). Watching keeps opposite kinds opposite, so the test is asked at the
same moments and the children are called alike (`while_true_is_until_opposite`).
-/

namespace BlockScript

section

variable {σ : Type v}

/-- The test that reads the opposite. It changes the world as the test does. -/
def opposite (test : σ → Bool × σ) (w : σ) : Bool × σ := (!(test w).1, (test w).2)

/-- A loop runs while a test holds exactly until the opposite of the test does. -/
theorem shouldExit_opposite (test : σ → Bool × σ) (w : σ) :
    (LoopKind.whileTrue test).shouldExit w = (LoopKind.untilTrue (opposite test)).shouldExit w := rfl

/-- Under watch the two loops also answer alike, with the same answers noted. -/
theorem shouldExit_watch_opposite (test : σ → Bool × σ) (v : Watch σ) :
    (LoopKind.whileTrue test).watch.shouldExit v = (LoopKind.untilTrue (opposite test)).watch.shouldExit v := rfl

end

section

variable {α : Type u} {σ : Type v} [Block α σ] {k k' : LoopKind σ}

/-! ## One call -/

namespace Tree

/-- What two calls come to where loops differ in the kind alone: both end alike, leave the same world, and leave such loops. -/
inductive LoopsAlike (k k' : LoopKind σ) : Outcome × Tree α σ × σ → Outcome × Tree α σ × σ → Prop where
  | mk (r : Outcome) (cs : List (Tree α σ)) (i : Nat) (s e : Bool) (w : σ) :
      LoopsAlike k k' (r, loop k cs i s e, w) (r, loop k' cs i s e, w)

omit [Block α σ] in
/-- Two loops after the same calls are the same but for their kinds. -/
theorem LoopsAlike.exists_eq {x y : Outcome × Tree α σ × σ} (h : LoopsAlike k k' x y) :
    ∃ r cs i s e w, x = (r, loop k cs i s e, w) ∧ y = (r, loop k' cs i s e, w) := by
  cases h with
  | mk r cs i s e w => exact ⟨r, cs, i, s, e, w, rfl, rfl⟩

/-- A loop is asked whether to stop before the first child is entered. -/
theorem LoopsAlike.enter (h : ∀ w, k.shouldExit w = k'.shouldExit w) (cs : List (Tree α σ)) (i : Nat) (s e : Bool) (w : σ) :
    LoopsAlike k k' ((loop k cs i s e).enter w) ((loop k' cs i s e).enter w) := by
  rcases hk : k.shouldExit w with ⟨_ | _, w'⟩ <;> have hk' := (h w).symm.trans hk
  · rw [enter_loop_start hk, enter_loop_start hk']
    exact .mk ..
  · rw [enter_loop_stop hk, enter_loop_stop hk']
    exact .mk ..

/-- A loop is asked whether to stop before the child at hand is called, and again after the last child was left. -/
theorem LoopsAlike.run (h : ∀ w, k.shouldExit w = k'.shouldExit w) (dt : Float) (cs : List (Tree α σ)) (i : Nat) (s e : Bool) (w : σ) :
    LoopsAlike k k' ((loop k cs i s e).run dt w) ((loop k' cs i s e).run dt w) := by
  by_cases hidle : s = true ∨ cs = []
  · rw [run_loop_idle hidle, run_loop_idle hidle]
    exact .mk ..
  obtain ⟨hgoes, hcs⟩ := not_or.mp hidle
  obtain rfl : s = false := by simpa using hgoes
  rcases hk : k.shouldExit w with ⟨_ | _, w'⟩ <;> have hk' := (h w).symm.trans hk
  · cases e with
    | false =>
      rw [run_loop_retry hcs hk, run_loop_retry hcs hk']
      exact .mk ..
    | true =>
      rcases hr : runAt dt cs i w' with ⟨err | _ | _, ds, w''⟩
      · rw [run_loop_error hcs hk hr, run_loop_error hcs hk' hr]
        exact .mk ..
      · rw [run_loop_busy hcs hk hr, run_loop_busy hcs hk' hr]
        exact .mk ..
      · rcases Nat.lt_or_ge (i + 1) ds.length with hnext | hlast
        · rw [run_loop_next hcs hk hr hnext, run_loop_next hcs hk' hr hnext]
          exact .mk ..
        · rcases hagain : k.shouldExit w'' with ⟨_ | _, w₃⟩ <;> have hagain' := (h w'').symm.trans hagain
          · rw [run_loop_wrap hcs hk hr hlast hagain, run_loop_wrap hcs hk' hr hlast hagain']
            exact .mk ..
          · rw [run_loop_finish hcs hk hr hlast hagain, run_loop_finish hcs hk' hr hlast hagain']
            exact .mk ..
  · rw [run_loop_stop hcs hk, run_loop_stop hcs hk']
    exact .mk ..

/-- Every call goes alike on loops that are answered alike. -/
theorem loops_alike (h : ∀ w, k.shouldExit w = k'.shouldExit w) (call : OwnerCall) (cs : List (Tree α σ)) (i : Nat) (s e : Bool)
    (w : σ) : LoopsAlike k k' (call.make (loop k cs i s e) w) (call.make (loop k' cs i s e) w) := by
  cases call with
  | create => exact .mk ..
  | destroy => exact .mk ..
  | enter => exact .enter h cs i s e w
  | run dt => exact .run h dt cs i s e w
  | exit =>
    cases e with
    | false => exact .mk ..
    | true => exact .mk ..

end Tree

/-! ## Many calls -/

/-- All that can be seen of a call on a composite: what the call tells, the world it leaves behind, and where the cursor is then. -/
structure LoopView (σ : Type v) where
  call : LoopCall
  world : σ
  current : Nat

/-- A call on a tree in a world, as it is seen. -/
def LoopView.of (call : OwnerCall) (t : Tree α σ) (w : σ) : LoopView σ where
  call := .of call t w
  world := (call.make t w).2.2
  current := (call.make t w).2.1.current

/-- Calls that an owner makes of a tree, as they are seen. Before each call the world may be changed from outside. -/
def views : List (OwnerCall × (σ → σ)) → Tree α σ → σ → List (LoopView σ)
  | [], _, _ => []
  | (call, change) :: calls, t, w =>
    .of call t (change w) :: views calls (call.make t (change w)).2.1 (call.make t (change w)).2.2

/-- Watching changes nothing of what any of these calls does. -/
def WatchedFaithfully : List (OwnerCall × (σ → σ)) → Tree α σ → σ → Prop
  | [], _, _ => True
  | (call, change) :: calls, t, w => Tree.Notes call t (change w) (LoopCall.of call t (change w)).incidents ∧
    WatchedFaithfully calls (call.make t (change w)).2.1 (call.make t (change w)).2.2

/-- Loops that are answered alike cannot be told apart, if watching does not get them answered otherwise. -/
theorem views_eq (h : ∀ w, k.shouldExit w = k'.shouldExit w) (hwatch : ∀ v, k.watch.shouldExit v = k'.watch.shouldExit v)
    (calls : List (OwnerCall × (σ → σ))) (cs : List (Tree α σ)) (i : Nat) (s e : Bool) (w : σ) :
    views calls (.loop k cs i s e) w = views calls (.loop k' cs i s e) w := by
  induction calls generalizing cs i s e w with
  | nil => rfl
  | cons x calls ih =>
    obtain ⟨call, change⟩ := x
    obtain ⟨r, ds, j, s', e', w', hcall, hcall'⟩ := (Tree.loops_alike h call cs i s e (change w)).exists_eq
    have hincidents : (LoopCall.of call (.loop k cs i s e) (change w)).incidents =
        (LoopCall.of call (.loop k' cs i s e) (change w)).incidents := by
      obtain ⟨_, _, _, _, _, _, hseen, hseen'⟩ :=
        (Tree.loops_alike hwatch call (Tree.watchAll cs) i s e ⟨change w, []⟩).exists_eq
      simp only [LoopCall.of, Tree.watch, hseen, hseen']
    have hview : LoopView.of call (.loop k cs i s e) (change w) = .of call (.loop k' cs i s e) (change w) := by
      simp only [LoopCall.of] at hincidents
      simp only [LoopView.of, LoopCall.of, hcall, hcall', hincidents]
      rfl
    rw [views, views, hview, hcall, hcall', ih]

/-- Watching a composite that takes its children in order changes nothing, whatever its owner makes of it. -/
theorem Tree.TakesInOrder.watchedFaithfully {next : Nat → Nat} {P : ChildPhase → Tree α σ → Prop} (h : TakesInOrder next P)
    (calls : List (OwnerCall × (σ → σ))) {p : ChildPhase} {t : Tree α σ} (ht : P p t) (w : σ) : WatchedFaithfully calls t w := by
  induction calls generalizing p t w with
  | nil => trivial
  | cons x calls ih =>
    obtain ⟨call, change⟩ := x
    obtain ⟨p', ht'⟩ := h.kept ht call (change w)
    exact ⟨h.notes ht call (change w), ih ht' _⟩

/-- To go on while a test reads true is to go on until its opposite does. Take any test, which may change the world that it reads, and any
body. Whatever the owner calls in whatever order, whether or not the block contract allows it, and however the world is changed between
the calls, the two loops end every call alike, read complete alike, have their cursors at the same place and leave the same world, and in
every call they ask their tests at the same moments, with the same effect, and call their children in the same order, with the same
result. What happens in a call is seen by watching, which changes nothing of what any call does. -/
theorem while_true_is_until_opposite (test : σ → Bool × σ) (body : List (Tree α σ)) (calls : List (OwnerCall × (σ → σ))) (w : σ) :
    views calls (.repeating (.whileTrue test) body) w = views calls (.repeating (.untilTrue (opposite test)) body) w ∧
      WatchedFaithfully calls (.repeating (.whileTrue test) body) w ∧
      WatchedFaithfully calls (.repeating (.untilTrue (opposite test)) body) w := by
  have hfaithful : ∀ k : LoopKind σ, WatchedFaithfully calls (.repeating k body) w := fun k =>
    (Tree.loop_takesInOrder k body.length).watchedFaithfully calls (.due false rfl id) w
  exact ⟨views_eq (shouldExit_opposite test) (shouldExit_watch_opposite test) calls body 0 false false w, hfaithful _, hfaithful _⟩

end

end BlockScript
