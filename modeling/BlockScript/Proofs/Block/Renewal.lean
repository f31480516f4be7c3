import BlockScript.Proofs.Block.Lockstep

/-!
# Entering a tree again

A tree of built-in blocks that was used before is as good as a new one: once it has been entered, no later call can tell what earlier
activations left in it (`entering_renews`). The two trees do not become equal, since children that have not been entered yet keep
what was left in them. They get in step, and nothing more is needed.
-/

namespace BlockScript

/-! ## Calls and what is seen of them -/

/-- A call on a block, or something else that happens to the world in between. -/
inductive Call (σ : Type v) where
  | enter
  | run (dt : Float)
  | exit
  | isComplete
  | elsewhere (change : σ → σ)

/-- What a call answers. -/
inductive Answer where
  | outcome (r : Outcome)
  | complete (b : Bool)
  | silent

section

variable {β : Type u} {σ : Type v} [Block β σ]

/-- Makes a call. -/
def Call.make : Call σ → β → σ → Answer × β × σ
  | enter, b, w => (.outcome (Block.enter b w).1, (Block.enter b w).2)
  | run dt, b, w => (.outcome (Block.run dt b w).1, (Block.run dt b w).2)
  | exit, b, w => (.silent, Block.exit b w)
  | isComplete, b, w => (.complete (Block.isComplete b w), b, w)
  | elsewhere change, b, w => (.silent, b, change w)

/-- All that is seen of a block from outside during some calls: what each of them answers and the world it leaves behind. -/
def trace : List (Call σ) → β → σ → List (Answer × σ)
  | [], _, _ => []
  | call :: calls, b, w =>
    ((call.make b w).1, (call.make b w).2.2) :: trace calls (call.make b w).2.1 (call.make b w).2.2

variable {Akin InStep : β → β → Prop}

/-- Blocks in step answer any call alike. -/
theorem Lockstep.make_agree (h : Lockstep Akin InStep (Eq (α := σ))) {b c : β} (hbc : InStep b c) (call : Call σ) (w : σ) :
    Agree InStep Eq (call.make b w) (call.make c w) := by
  cases call with
  | enter =>
    obtain ⟨hanswer, -, hworld⟩ := h.enter (h.akin hbc) (rfl : w = w)
    exact ⟨congrArg Answer.outcome hanswer, h.reenter hbc rfl, hworld⟩
  | run dt =>
    obtain ⟨hanswer, hstep, hworld⟩ := h.run dt hbc (rfl : w = w)
    exact ⟨congrArg Answer.outcome hanswer, hstep, hworld⟩
  | exit =>
    obtain ⟨hstep, hworld⟩ := h.exit hbc (rfl : w = w)
    exact ⟨rfl, hstep, hworld⟩
  | isComplete => exact ⟨congrArg Answer.complete (h.isComplete hbc rfl), hbc, rfl⟩
  | elsewhere change => exact ⟨rfl, hbc, rfl⟩

/-- Blocks that are in step cannot be told apart. -/
theorem Lockstep.trace_eq (h : Lockstep Akin InStep (Eq (α := σ))) (calls : List (Call σ)) {b c : β} (hbc : InStep b c) (w : σ) :
    trace calls b w = trace calls c w := by
  induction calls generalizing b c w with
  | nil => rfl
  | cons call calls ih =>
    obtain ⟨hanswer, hstep, hworld⟩ := h.make_agree hbc call w
    rw [trace, trace, hanswer, hworld, ih hstep]

end

/-! ## Built-in blocks -/

section

variable {σ : Type v}

/-- Trees of the same built-in blocks: they differ at most in what earlier activations left at their nodes, that is in the flags and
readings of their leaves and in the cursors and flags of their composites. -/
def BuiltIn.SameBlocks (t u : BuiltIn σ) : Prop := Tree.Akin Primitive.Akin Eq t u

/-- What a leaf calls answers alike in equal worlds. -/
theorem Primitive.respects_eq (b : Primitive σ) : b.Respects Eq := by
  cases b
  all_goals
    rintro w _ rfl
    exact ⟨rfl, rfl⟩

/-- Leaves run in lockstep in equal worlds. -/
theorem Primitive.lockstep_eq : Lockstep (Primitive.Akin (σ := σ)) Eq Eq := by
  simpa only [and_true] using
    Primitive.lockstep (S := fun _ => True) (fun _ _ => trivial) fun {b} _ => b.respects_eq

/-- Built-in trees run in lockstep in equal worlds. -/
theorem BuiltIn.lockstep : Lockstep (BuiltIn.SameBlocks (σ := σ)) (Tree.InStep Primitive.Akin Eq Eq) Eq := by
  refine Tree.lockstep Primitive.lockstep_eq ?_
  rintro k _ rfl w _ rfl
  exact ⟨_, _, _, rfl, rfl, rfl⟩

/-- Entering a tree makes it as good as new. Whatever earlier activations left in two trees of the same blocks, entering them in the
same world gives the same answer and the same world; and if they could be entered, any further calls, with anything else happening
in between, give the same answers and leave the same worlds. -/
theorem entering_renews {t u : BuiltIn σ} (h : BuiltIn.SameBlocks t u) (w : σ) :
    (t.enter w).1 = (u.enter w).1 ∧ (t.enter w).2.2 = (u.enter w).2.2 ∧
    ((t.enter w).1 = .ok () → ∀ calls,
      trace calls (t.enter w).2.1 (t.enter w).2.2 = trace calls (u.enter w).2.1 (u.enter w).2.2) := by
  obtain ⟨hanswer, -, hworld⟩ := BuiltIn.lockstep.enter h (rfl : w = w)
  refine ⟨hanswer, hworld, fun hok calls => ?_⟩
  have hstep := BuiltIn.lockstep.entered h (rfl : w = w) hok
  have htrace := BuiltIn.lockstep.trace_eq calls hstep (t.enter w).2.2
  rwa [show (t.enter w).2.2 = (u.enter w).2.2 from hworld] at htrace ⊢

end

/-- A clock that stands still, behind a slot that is filled while a lamp is on. -/
def lampClock : ActionsHandle Bool where
  provider? on :=
    if on then some { log := fun _ w => w, say := fun _ _ w => w, playSound := fun _ _ w => w, now := fun w => (0.5, w) }
    else none
  clear _ := false

/-- A switch and then, while the lamp is on, a pause over and over, with what is left at each of the five nodes. -/
def flicker (used : Bool) (reading : Float) (cursor : Nat) : BuiltIn Bool :=
  .sequence [.leaf (.execute (fun on => (.ok (), !on)) used),
    .loop (.whileTrue fun on => (on, on))
      [.leaf (.wait 1.0 reading reading lampClock), .leaf (.condition (fun on => (on, on)) used)] cursor used used]
    cursor used

/-- A tree that is new and the same tree with much left in it. -/
theorem entering_renews_flicker : (flicker false 0.0 0).SameBlocks (flicker true 7.0 2) ∧
    ((flicker false 0.0 0).enter true).1 = .ok () ∧ ∀ calls,
      trace calls ((flicker false 0.0 0).enter true).2.1 ((flicker false 0.0 0).enter true).2.2 =
        trace calls ((flicker true 7.0 2).enter true).2.1 ((flicker true 7.0 2).enter true).2.2 := by
  have hbody : Tree.Paired (σ := Bool) Primitive.Akin Eq _ _ :=
    .cons (.leaf (.wait 1.0 0.0 0.0 7.0 7.0 lampClock)) (.cons (.leaf (.condition (fun on => (on, on)) false true)) .nil)
  have hchildren : Tree.Paired (σ := Bool) Primitive.Akin Eq _ _ :=
    .cons (.leaf (.execute (fun on => (.ok (), !on)) false true))
      (.cons (hbody.akin_loop (rfl : LoopKind.whileTrue (fun on => (on, on)) = _) 0 2 false true false true) .nil)
  have hsame : (flicker false 0.0 0).SameBlocks (flicker true 7.0 2) := hchildren.akin_sequence 0 2 false true
  exact ⟨hsame, rfl, (entering_renews hsame true).2.2 rfl⟩

end BlockScript
