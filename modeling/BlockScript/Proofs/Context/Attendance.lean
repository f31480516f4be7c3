import BlockScript.Proofs.Context.Operations

/-!
# What blocks do to the world, noted down

A list of deeds stands beside the world (`Attended`): every call of a callback, every poll of a test and every reading of a clock is
entered in it, in order, with the world that it found. All blocks, contexts and operations can be attended in this way, and attending
changes nothing of what they answer, of what is registered and of the world (`performAll_attend`). So what is shown of the deeds of the
attended blocks is shown of what the blocks themselves do.
-/

namespace BlockScript

/-- What a built-in block does to the world `before` it. -/
inductive Deed (σ : Type v) where
  | called (callback : σ → Outcome × σ) (before : σ)
  | polled (test : σ → Bool × σ) (before : σ)
  | read (before : σ)

/-- The world in which something is done. -/
def Deed.before {σ : Type v} : Deed σ → σ
  | called _ before => before
  | polled _ before => before
  | read before => before

/-- A world and what was done to it so far. -/
structure Attended (σ : Type v) where
  world : σ
  deeds : List (Deed σ)

namespace Attended

variable {σ : Type v}

/-- Does something to the world, noting it down. -/
def note {γ : Type u} (deed : σ → Deed σ) (f : σ → γ × σ) (v : Attended σ) : γ × Attended σ :=
  ((f v.world).1, ⟨(f v.world).2, v.deeds ++ [deed v.world]⟩)

/-- Changes the world, which is no deed of a block. -/
def change (f : σ → σ) (v : Attended σ) : Attended σ := { v with world := f v.world }

/-- An attended world stands for the world in it. -/
def Shows (v : Attended σ) (w : σ) : Prop := v.world = w

end Attended

/-! ## Attending -/

section

variable {σ : Type v}

/-- The provider, whose clock is attended. What a provider is asked for otherwise is asked by a callback. -/
def Provider.attend (p : Provider σ) : Provider (Attended σ) where
  log message := Attended.change (p.log message)
  say message seconds := Attended.change (p.say message seconds)
  playSound name volume := Attended.change (p.playSound name volume)
  now := Attended.note .read p.now

/-- The slot with the attended provider. -/
def ActionsHandle.attend (h : ActionsHandle σ) : ActionsHandle (Attended σ) where
  provider? v := (h.provider? v.world).map Provider.attend
  clear := Attended.change h.clear

/-- The leaf in the same state, attended. -/
def Primitive.attend : Primitive σ → Primitive (Attended σ)
  | execute callback executed => execute (Attended.note (.called callback) callback) executed
  | wait duration start now clock => wait duration start now clock.attend
  | condition test result => condition (Attended.note (.polled test) test) result

/-- The kind of loop, attended. -/
def LoopKind.attend : LoopKind σ → LoopKind (Attended σ)
  | forever => forever
  | whileTrue test => whileTrue (Attended.note (.polled test) test)
  | untilTrue test => untilTrue (Attended.note (.polled test) test)

/-- The tree with the same cursors, attended. -/
def Tree.attend : BuiltIn σ → BuiltIn (Attended σ) := mapLeaves Primitive.attend LoopKind.attend

/-- The roots under their ids, attended. -/
def Runner.attend (r : Runner (BuiltIn σ)) : Runner (BuiltIn (Attended σ)) := ⟨r.roots.map fun x => (x.1, x.2.attend), r.nextId⟩

/-- The context with its slot and its roots, attended. -/
def Context.attend (c : Context (Primitive σ) σ) : Context (Primitive (Attended σ)) (Attended σ) := ⟨c.actions.attend, c.runner.attend⟩

/-- The operation, attended. -/
def Operation.attend (op : Operation (BuiltIn σ) σ) : Operation (BuiltIn (Attended σ)) (Attended σ) := op.map Tree.attend Attended.change

/-- What comes of operations, attended from no deeds on. -/
def attendAll {ι : Type w} [DecidableEq ι] (contexts : ι → Context (Primitive σ) σ) (w : σ) (ops : List (ι × Operation (BuiltIn σ) σ)) :
    List (ι × Operation.Answer) × (ι → Context (Primitive (Attended σ)) (Attended σ)) × Attended σ :=
  performAll (fun i => (contexts i).attend) ⟨w, []⟩ (ops.map fun x => (x.1, x.2.attend))

/-- The deeds of the blocks in the course of operations: calls of callbacks, polls of tests and readings of clocks. -/
def deedsOf {ι : Type w} [DecidableEq ι] (contexts : ι → Context (Primitive σ) σ) (w : σ) (ops : List (ι × Operation (BuiltIn σ) σ)) :
    List (Deed σ) :=
  (attendAll contexts w ops).2.2.deeds

end

/-! ## Attending changes nothing -/

section

variable {σ : Type v} {D : Float → Float → Prop}

/-- A clock is read alike, and the reading is noted where there is one. -/
theorem ActionsHandle.attend_responds (h : ActionsHandle σ) : Responds Attended.Shows h.attend.currentTime h.currentTime := by
  rintro v _ rfl
  simp only [currentTime, attend]
  cases h.provider? v.world with
  | none => exact ⟨rfl, rfl⟩
  | some p => exact ⟨rfl, rfl⟩

/-- An attended test answers as it does unattended. -/
theorem LoopKind.attend_responds (k : LoopKind σ) : Responds Attended.Shows k.attend.shouldExit k.shouldExit := by
  rintro v _ rfl
  cases k <;> exact ⟨rfl, rfl⟩

/-- An attended leaf and the leaf. -/
def Primitive.Attends (b : Primitive (Attended σ)) (c : Primitive σ) : Prop := b = c.attend

/-- An attended loop and the loop. -/
def LoopKind.Attends (k : LoopKind (Attended σ)) (l : LoopKind σ) : Prop := k = l.attend

/-- The attended form of a test answers as the test does. -/
theorem LoopKind.Attends.responds (k : LoopKind (Attended σ)) (l : LoopKind σ) (h : k.Attends l) :
    Responds Attended.Shows k.shouldExit l.shouldExit := by
  rw [h]
  exact l.attend_responds

/-- An attended tree and the tree. -/
abbrev Tree.Attends : BuiltIn (Attended σ) → BuiltIn σ → Prop := Mirrors Primitive.Attends LoopKind.Attends

namespace Primitive

/-- An attended leaf is entered as it is unattended. -/
theorem enter_attends (c : Primitive σ) (v : Attended σ) : Mirrored Attends Attended.Shows (c.attend.enter v) (c.enter v.world) := by
  cases c with
  | execute callback executed => exact ⟨rfl, rfl, rfl⟩
  | condition test result => exact ⟨rfl, rfl, rfl⟩
  | wait duration start now clock =>
    have hread := clock.attend_responds v v.world rfl
    simp only [attend, enter]
    rcases hv : clock.attend.currentTime v with ⟨r, v'⟩
    rcases hw : clock.currentTime v.world with ⟨r', w'⟩
    rw [hv, hw] at hread
    obtain ⟨rfl, hshows⟩ : r = r' ∧ Attended.Shows v' w' := hread
    cases r <;> exact ⟨rfl, rfl, hshows⟩

/-- An attended leaf runs as it does unattended. -/
theorem run_attends (c : Primitive σ) (v : Attended σ) : Mirrored Attends Attended.Shows (c.attend.run v) (c.run v.world) := by
  cases c with
  | execute callback executed => cases executed <;> exact ⟨rfl, rfl, rfl⟩
  | condition test result => exact ⟨rfl, rfl, rfl⟩
  | wait duration start now clock =>
    have hread := clock.attend_responds v v.world rfl
    simp only [attend, run]
    rcases hv : clock.attend.currentTime v with ⟨r, v'⟩
    rcases hw : clock.currentTime v.world with ⟨r', w'⟩
    rw [hv, hw] at hread
    obtain ⟨rfl, hshows⟩ : r = r' ∧ Attended.Shows v' w' := hread
    cases r <;> exact ⟨rfl, rfl, hshows⟩

/-- Attended leaves mirror the unattended ones. -/
theorem attends_mirror : Mirror (Attends (σ := σ)) Attended.Shows D where
  create hb hw := ⟨hb, hw⟩
  destroy hb hw := ⟨hb, hw⟩
  enter {b c v w} hb hw := by
    subst hb hw
    exact c.enter_attends v
  run _ b c v w hb hw := by
    subst hb hw
    exact c.run_attends v
  exit hb hw := ⟨hb, hw⟩
  isComplete {b c v w} hb _ := by
    subst hb
    cases c <;> rfl

end Primitive

namespace Tree

/-- Attended trees mirror the unattended ones. -/
theorem attends_mirror : Mirror (Attends (σ := σ)) Attended.Shows D := Tree.mirror Primitive.attends_mirror LoopKind.Attends.responds

/-- Attending a tree makes its attended form. -/
theorem attend_attends (t : Tree (Primitive σ) σ) : Attends t.attend t := by
  have hlists : ∀ {cs : List (BuiltIn σ)}, (∀ c ∈ cs, Attends c.attend c) →
      List.Forall₂ Attends (mapLeavesAll Primitive.attend LoopKind.attend cs) cs := by
    intro cs hcs
    induction cs with
    | nil => exact .nil
    | cons c cs ih => exact .cons (hcs c (by simp)) (ih fun d hd => hcs d (by simp [hd]))
  induction t with
  | leaf b => exact .leaf rfl
  | sequence cs i e ih => exact .sequence (hlists ih)
  | loop k cs i s e ih => exact .loop rfl (hlists ih)

/-- Only the tree itself, attended, mirrors a tree in this way. -/
theorem Attends.eq {t : BuiltIn (Attended σ)} {u : Tree (Primitive σ) σ} (h : Attends t u) : t = u.attend := by
  have hlists : ∀ {cs : List (BuiltIn (Attended σ))} {ds : List (BuiltIn σ)}, List.Forall₂ Attends cs ds →
      (∀ d ∈ ds, ∀ c, Attends c d → c = d.attend) → cs = mapLeavesAll Primitive.attend LoopKind.attend ds := by
    intro cs ds hcs ih
    induction hcs with
    | nil => rfl
    | cons hcd _ ih' =>
      obtain ⟨hd, hrest⟩ := List.forall_mem_cons.mp ih
      exact congrArg₂ List.cons (hd _ hcd) (ih' hrest)
  induction u generalizing t with
  | leaf b =>
    obtain ⟨hb⟩ := h
    exact congrArg Tree.leaf hb
  | sequence cs i e ih =>
    cases h with
    | sequence hcs => exact congrArg (sequence · i e) (hlists hcs fun d hd c hcd => ih d hd hcd)
  | loop k cs i s e ih =>
    cases h with
    | loop hk hcs => exact congrArg₂ (loop · · i s e) hk (hlists hcs fun d hd c hcd => ih d hd hcd)

end Tree

/-- An attended runner mirrors the unattended one. -/
theorem Runner.attend_mirrors (r : Runner (BuiltIn σ)) : r.attend.Mirrors Tree.Attends r := by
  refine ⟨?_, rfl⟩
  rw [attend, List.forall₂_map_left_iff]
  exact List.forall₂_same.mpr fun x _ => ⟨rfl, x.2.attend_attends⟩

/-- Only the attended form of a runner mirrors it so. -/
theorem Runner.Mirrors.eq_attend {r : Runner (BuiltIn (Attended σ))} {s : Runner (BuiltIn σ)} (h : r.Mirrors Tree.Attends s) :
    r = s.attend := by
  have hroots : ∀ {xs : List (Nat × BuiltIn (Attended σ))} {ys : List (Nat × BuiltIn σ)},
      List.Forall₂ (RootMirrors Tree.Attends) xs ys → xs = ys.map fun y => (y.1, y.2.attend) := by
    intro xs ys hxys
    induction hxys with
    | nil => rfl
    | cons hxy _ ih => exact congrArg₂ List.cons (Prod.ext hxy.1 hxy.2.eq) ih
  exact congrArg₂ Runner.mk (hroots h.roots) h.nextId

/-- A tick of attended roots is a tick of the roots. -/
theorem Runner.process_attend (r : Runner (BuiltIn σ)) (dt : Float) (v : Attended σ) :
    Mirrored (Mirrors Tree.Attends) Attended.Shows (r.attend.process dt v) (r.process dt v.world) :=
  process_mirrored Tree.attends_mirror (rfl : dt = dt) r.attend_mirrors rfl

/-- Registering an attended root is registering the root. -/
theorem Runner.add_attend (r : Runner (BuiltIn σ)) (t : BuiltIn σ) (v : Attended σ) :
    Mirrored (Mirrors Tree.Attends) Attended.Shows (r.attend.add t.attend v) (r.add t v.world) :=
  add_mirrored (Tree.attends_mirror (D := Eq)) r.attend_mirrors t.attend_attends rfl

/-- An attended context mirrors the unattended one. -/
theorem Context.attend_mirrors (c : Context (Primitive σ) σ) :
    c.attend.Mirrors Primitive.Attends LoopKind.Attends Attended.Shows c := by
  refine ⟨c.runner.attend_mirrors, ?_⟩
  rintro v _ rfl
  rfl

/-- An attended operation mirrors the unattended one. -/
theorem Operation.attend_mirrors (op : Operation (BuiltIn σ) σ) :
    op.attend.Mirrors Tree.Attends (fun f g => ∀ v w, Attended.Shows v w → Attended.Shows (f v) (g w)) op := by
  cases op with
  | run blocks => exact .run (List.forall₂_map_left_iff.mpr (List.forall₂_same.mpr fun b _ => b.attend_attends))
  | runBlock block => exact .runBlock block.attend_attends
  | process dt => exact .process dt
  | cancel id => exact .cancel id
  | dispose => exact .dispose
  | host change => exact .host fun v w hw => congrArg change hw

/-- Attending a history changes nothing: the operations are answered alike, the same roots in the same states are registered, and the
world is the same. -/
theorem performAll_attend {ι : Type w} [DecidableEq ι] (contexts : ι → Context (Primitive σ) σ) (w : σ)
    (ops : List (ι × Operation (BuiltIn σ) σ)) :
    let attended := attendAll contexts w ops
    let plain := performAll contexts w ops
    attended.1 = plain.1 ∧ (∀ i, (attended.2.1 i).runner = (plain.2.1 i).runner.attend) ∧ attended.2.2.world = plain.2.2 := by
  have hops : List.Forall₂ (fun x y => x.1 = y.1 ∧
      x.2.Mirrors Tree.Attends (fun f g => ∀ v w, Attended.Shows v w → Attended.Shows (f v) (g w)) y.2)
      (ops.map fun x => (x.1, x.2.attend)) ops :=
    List.forall₂_map_left_iff.mpr (List.forall₂_same.mpr fun x _ => ⟨rfl, x.2.attend_mirrors⟩)
  obtain ⟨hanswers, hcontexts, hworld⟩ := performAll_mirrored Tree.attends_mirror hops (fun i => (contexts i).attend_mirrors)
    (rfl : Attended.Shows ⟨w, []⟩ w)
  exact ⟨hanswers, fun i => (hcontexts i).runner.eq_attend, hworld⟩

end

end BlockScript
