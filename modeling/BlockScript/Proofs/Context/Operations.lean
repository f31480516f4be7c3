import BlockScript.Context
import BlockScript.Recording
import BlockScript.Proofs.Block.Mirror
import Mathlib.Logic.Function.Basic

/-!
# Operations on contexts

A host operates its contexts one operation after another, in a world that they share (`performAll`): it runs blocks as roots, makes
ticks, cancels roots, disposes of a context, and now and then changes something in the world itself, as where it installs a provider.
The blocks are described by plans, whose leaves are those that the builder of a context makes (`Made`). Runners and contexts with roots
that mirror each other do so in every operation (`performAll_mirrored`), and what blocks uphold is upheld by every operation
(`Context.perform_upholds`).
-/

namespace BlockScript

/-! ## Runners that mirror each other -/

namespace Runner

variable {β : Type u} {β' : Type u'} {σ : Type v} {τ : Type v'} {R : β → β' → Prop} {W : σ → τ → Prop} {D : Float → Float → Prop}

/-- Related roots, registered under the same id. -/
def RootMirrors (R : β → β' → Prop) (x : Nat × β) (y : Nat × β') : Prop := x.1 = y.1 ∧ R x.2 y.2

/-- Runners with related roots under the same ids, that go on from the same id. -/
structure Mirrors (R : β → β' → Prop) (r : Runner β) (s : Runner β') : Prop where
  roots : List.Forall₂ (RootMirrors R) r.roots s.roots
  nextId : r.nextId = s.nextId

/-- The runner with other roots under the same ids. -/
def map (f : β → β') (r : Runner β) : Runner β' := ⟨r.roots.map fun x => (x.1, f x.2), r.nextId⟩

/-- A runner with what `f` makes of each root is the only one that mirrors it so. -/
theorem mirrors_iff_map_eq {f : β → β'} {r : Runner β} {s : Runner β'} : Mirrors (fun b c => f b = c) r s ↔ r.map f = s := by
  constructor
  · rintro ⟨hroots, hid⟩
    have hroots' : List.Forall₂ (fun x y => (x.1, f x.2) = y) r.roots s.roots := hroots.imp fun x y hxy => Prod.ext hxy.1 hxy.2
    rw [← List.forall₂_map_left_iff (R := Eq), List.forall₂_eq_eq_eq] at hroots'
    cases s
    exact congrArg₂ Runner.mk hroots' hid
  · rintro rfl
    refine ⟨List.forall₂_map_right_iff.mpr ?_, rfl⟩
    exact List.forall₂_same.mpr fun x _ => ⟨rfl, rfl⟩

/-- Runners with equal roots under the same ids are the same runner. -/
theorem mirrors_eq_iff {r s : Runner β} : Mirrors Eq r s ↔ r = s := by
  have hmap : r.map id = r := congrArg (Runner.mk · r.nextId) (List.map_id r.roots)
  have hiff : Mirrors Eq r s ↔ r.map id = s := mirrors_iff_map_eq (f := id)
  rwa [hmap] at hiff

/-- The root that is found under an id, and the roots without it. -/
theorem find_mirrored {xs : List (Nat × β)} {ys : List (Nat × β')} (h : List.Forall₂ (RootMirrors R) xs ys) (id : Nat) :
    ((xs.find? (·.1 == id) = none ∧ ys.find? (·.1 == id) = none) ∨
      ∃ x y, xs.find? (·.1 == id) = some x ∧ ys.find? (·.1 == id) = some y ∧ R x.2 y.2) ∧
      List.Forall₂ (RootMirrors R) (xs.eraseP (·.1 == id)) (ys.eraseP (·.1 == id)) := by
  induction h with
  | nil => exact ⟨.inl ⟨rfl, rfl⟩, .nil⟩
  | @cons x y xs ys hxy hrest ih =>
    by_cases hid : x.1 = id
    · have hid' : y.1 = id := hxy.1.symm.trans hid
      simp only [List.find?_cons, List.eraseP_cons, hid, hid', BEq.rfl, cond_true]
      exact ⟨.inr ⟨x, y, rfl, rfl, hxy.2⟩, hrest⟩
    · have hid' : ¬y.1 = id := fun hy => hid (hxy.1.trans hy)
      simp only [List.find?_cons, List.eraseP_cons, beq_eq_false_iff_ne.mpr hid, beq_eq_false_iff_ne.mpr hid', cond_false]
      exact ⟨ih.1, .cons hxy ih.2⟩

variable [Block β σ] [Block β' τ] {r : Runner β} {s : Runner β'} {b : β} {c : β'} {w : σ} {v : τ}

/-- Adding blocks that mirror each other is answered alike and leaves runners that do. -/
theorem add_mirrored (h : Mirror R W D) (hrs : Mirrors R r s) (hbc : R b c) (hw : W w v) :
    Mirrored (Mirrors R) W (r.add b w) (s.add c v) := by
  obtain ⟨hbc', hw'⟩ := h.create hbc hw
  obtain ⟨hanswer, hbc'', hw''⟩ := h.enter hbc' hw'
  simp only [add]
  rcases hb : Block.enter (Block.create b w).1 (Block.create b w).2 with ⟨outcome, b', w'⟩
  rcases hc : Block.enter (Block.create c v).1 (Block.create c v).2 with ⟨outcome', c', v'⟩
  rw [hb, hc] at hanswer hbc'' hw''
  obtain rfl : outcome = outcome' := hanswer
  cases outcome with
  | error e => exact ⟨rfl, hrs, hw''⟩
  | ok u =>
    have hnew : RootMirrors R (r.nextId, b') (s.nextId, c') := ⟨hrs.nextId, hbc''⟩
    exact ⟨congrArg Except.ok hrs.nextId, ⟨List.rel_append hrs.roots (.cons hnew .nil), congrArg (· + 1) hrs.nextId⟩, hw''⟩

/-- Taking out blocks that mirror each other leaves related worlds. -/
theorem retire_mirrored (h : Mirror R W D) (hbc : R b c) (hw : W w v) : W (retire b w) (retire c v) := by
  obtain ⟨hbc', hw'⟩ := h.exit hbc hw
  exact (h.destroy hbc' hw').2

/-- A tick of roots that mirror each other ends alike and leaves such roots. -/
theorem advance_mirrored (h : Mirror R W D) {dt dt' : Float} (hdt : D dt dt') {roots : List (Nat × β)} {roots' : List (Nat × β')}
    (hroots : List.Forall₂ (RootMirrors R) roots roots') (hw : W w v) :
    Mirrored (List.Forall₂ (RootMirrors R)) W (advance dt roots w) (advance dt' roots' v) := by
  induction hroots with
  | nil => exact ⟨rfl, .nil, hw⟩
  | @cons x y newer newer' hxy _ ih =>
    obtain ⟨id, b⟩ := x
    obtain ⟨id', c⟩ := y
    obtain ⟨rfl, hbc⟩ : id = id' ∧ R b c := hxy
    simp only [advance]
    rcases hn : advance dt newer w with ⟨outcome, kept, w'⟩
    rcases hn' : advance dt' newer' v with ⟨outcome', kept', v'⟩
    rw [hn, hn'] at ih
    obtain ⟨rfl, hkept, hw'⟩ := ih
    cases outcome with
    | error e => exact ⟨rfl, .cons ⟨rfl, hbc⟩ hkept, hw'⟩
    | ok u =>
      obtain ⟨hanswer, hbc', hw''⟩ := h.run hdt hbc hw'
      simp only
      rcases hb : Block.run dt b w' with ⟨outcome, b', w''⟩
      rcases hc : Block.run dt' c v' with ⟨outcome', c', v''⟩
      rw [hb, hc] at hanswer hbc' hw''
      obtain rfl : outcome = outcome' := hanswer
      cases outcome with
      | error e => exact ⟨rfl, .cons ⟨rfl, hbc'⟩ hkept, hw''⟩
      | ok u =>
        have hdone : Block.isComplete b' w'' = Block.isComplete c' v'' := h.isComplete hbc' hw''
        simp only [hdone]
        cases Block.isComplete c' v'' with
        | true => exact ⟨rfl, hkept, retire_mirrored h hbc' hw''⟩
        | false => exact ⟨rfl, .cons ⟨rfl, hbc'⟩ hkept, hw''⟩

/-- A tick of runners that mirror each other ends alike and leaves such runners. -/
theorem process_mirrored (h : Mirror R W D) {dt dt' : Float} (hdt : D dt dt') (hrs : Mirrors R r s) (hw : W w v) :
    Mirrored (Mirrors R) W (r.process dt w) (s.process dt' v) := by
  obtain ⟨hanswer, hroots, hw'⟩ := advance_mirrored h hdt hrs.roots hw
  exact ⟨hanswer, ⟨hroots, hrs.nextId⟩, hw'⟩

/-- Cancelling under the same id is answered alike and leaves runners that mirror each other. -/
theorem cancel_mirrored (h : Mirror R W D) (hrs : Mirrors R r s) (id : Nat) (hw : W w v) :
    Mirrored (Mirrors R) W (r.cancel id w) (s.cancel id v) := by
  obtain ⟨hfind, hrest⟩ := find_mirrored hrs.roots id
  rw [cancel, cancel]
  rcases hfind with ⟨hx, hy⟩ | ⟨x, y, hx, hy, hxy⟩ <;> rw [hx, hy]
  · exact ⟨rfl, hrs, hw⟩
  · exact ⟨rfl, ⟨hrest, hrs.nextId⟩, retire_mirrored h hxy hw⟩

/-- Cancelling upholds what taking out a root does. -/
theorem cancel_upholds {S : β → Prop} {I : σ → Prop} {Q : Outcome → Prop} (h : Upholds S I Q) (hr : ∀ x ∈ r.roots, S x.2) (id : Nat)
    (hw : I w) : (∀ x ∈ (r.cancel id w).2.1.roots, S x.2) ∧ I (r.cancel id w).2.2 := by
  rw [cancel]
  cases hx : r.roots.find? (·.1 == id) with
  | none => exact ⟨hr, hw⟩
  | some x => exact ⟨fun y hy => hr y (List.mem_of_mem_eraseP hy), retire_upholds h (hr x (List.mem_of_find?_eq_some hx)) hw⟩

end Runner

/-! ## Operations -/

/-- What a host does with one of its contexts. -/
inductive Operation (β : Type u) (σ : Type v) where
  /-- Runs blocks one after another as a root. -/
  | run (blocks : List β)
  | runBlock (block : β)
  | process (dt : Float)
  | cancel (id : Nat)
  | dispose
  /-- Changes the world on behalf of the context. -/
  | host (change : σ → σ)

/-- What an operation answers. -/
inductive Operation.Answer where
  | started (id : Except BlockError Nat)
  | ticked (outcome : Outcome)
  | cancelled (found : Bool)
  | done

namespace Operation

variable {β : Type u} {β' : Type u'} {σ : Type v} {τ : Type v'}

/-- The operation with other blocks, in another world. -/
def map (f : β → β') (g : (σ → σ) → τ → τ) : Operation β σ → Operation β' τ
  | run blocks => run (blocks.map f)
  | runBlock block => runBlock (f block)
  | process dt => process dt
  | cancel id => cancel id
  | dispose => dispose
  | host change => host (g change)

/-- All blocks that the operation brings have `P`, and a change to the world that it makes has `C`. -/
def Brings (P : β → Prop) (C : (σ → σ) → Prop) : Operation β σ → Prop
  | run blocks => ∀ b ∈ blocks, P b
  | runBlock block => P block
  | host change => C change
  | _ => True

/-- The same operation on both sides, with related blocks and changes. -/
inductive Mirrors (R : β → β' → Prop) (C : (σ → σ) → (τ → τ) → Prop) : Operation β σ → Operation β' τ → Prop where
  | run {bs : List β} {cs : List β'} : List.Forall₂ R bs cs → Mirrors R C (run bs) (run cs)
  | runBlock {b : β} {c : β'} : R b c → Mirrors R C (runBlock b) (runBlock c)
  | process (dt : Float) : Mirrors R C (process dt) (process dt)
  | cancel (id : Nat) : Mirrors R C (cancel id) (cancel id)
  | dispose : Mirrors R C dispose dispose
  | host {change : σ → σ} {change' : τ → τ} : C change change' → Mirrors R C (host change) (host change')

/-- An operation put into two worlds mirrors itself, if the blocks that it brings do. -/
theorem mirrors_map {γ : Type w} {υ : Type w'} {R : β → β' → Prop} {C : (σ → σ) → (τ → τ) → Prop} {P : γ → Prop} {Q : (υ → υ) → Prop}
    {f : γ → β} {f' : γ → β'} {g : (υ → υ) → σ → σ} {g' : (υ → υ) → τ → τ} (hf : ∀ b, P b → R (f b) (f' b))
    (hg : ∀ change, Q change → C (g change) (g' change)) {op : Operation γ υ} (h : op.Brings P Q) :
    Mirrors R C (op.map f g) (op.map f' g') := by
  cases op with
  | run blocks =>
    refine .run ?_
    rw [List.forall₂_map_left_iff, List.forall₂_map_right_iff]
    exact List.forall₂_same.mpr fun b hb => hf b (h b hb)
  | runBlock block => exact .runBlock (hf block h)
  | process dt => exact .process dt
  | cancel id => exact .cancel id
  | dispose => exact .dispose
  | host change => exact .host (hg change h)

/-- What holds of all blocks and all changes holds of those that an operation brings. -/
theorem brings_of_forall {P : β → Prop} {C : (σ → σ) → Prop} (hP : ∀ b, P b) (hC : ∀ change, C change) (op : Operation β σ) :
    op.Brings P C := by
  cases op with
  | run blocks => exact fun b _ => hP b
  | runBlock block => exact hP block
  | host change => exact hC change
  | _ => trivial

/-- What is made of the blocks and changes of an operation is brought by what is made of it. -/
theorem brings_map {P : β → Prop} {P' : β' → Prop} {C : (σ → σ) → Prop} {C' : (τ → τ) → Prop} {f : β → β'} {g : (σ → σ) → τ → τ}
    (hf : ∀ b, P b → P' (f b)) (hg : ∀ change, C change → C' (g change)) {op : Operation β σ} (h : op.Brings P C) :
    (op.map f g).Brings P' C' := by
  cases op with
  | run blocks => exact List.forall_mem_map.mpr fun b hb => hf b (h b hb)
  | runBlock block => exact hf block h
  | host change => exact hg change h
  | _ => trivial

end Operation

namespace Runner

variable {β : Type u} {β' : Type u'} {σ : Type v} {τ : Type v'} [Block β σ] [Block β' τ]

/-- Performs an operation, where `group` makes one block of several and `clear` empties the slot of the context. -/
def perform (group : List β → β) (clear : σ → σ) (r : Runner β) (w : σ) : Operation β σ → Operation.Answer × Runner β × σ
  | .run blocks => let (id, r, w) := r.add (group blocks) w; (.started id, r, w)
  | .runBlock block => let (id, r, w) := r.add block w; (.started id, r, w)
  | .process dt => let (outcome, r, w) := r.process dt w; (.ticked outcome, r, w)
  | .cancel id => let (found, r, w) := r.cancel id w; (.cancelled found, r, w)
  | .dispose => (.done, r.dispose, clear w)
  | .host change => (.done, r, change w)

variable {R : β → β' → Prop} {W : σ → τ → Prop} {r : Runner β} {s : Runner β'} {group : List β → β} {group' : List β' → β'}
  {clear : σ → σ} {clear' : τ → τ} {w : σ} {v : τ}

/-- Every operation on runners that mirror each other is answered alike and leaves them so. -/
theorem perform_mirrored (h : Mirror R W Eq) (hgroup : ∀ {bs cs}, List.Forall₂ R bs cs → R (group bs) (group' cs))
    (hclear : ∀ w v, W w v → W (clear w) (clear' v)) (hrs : Mirrors R r s) {op : Operation β σ} {op' : Operation β' τ}
    (hop : op.Mirrors R (fun f g => ∀ w v, W w v → W (f w) (g v)) op') (hw : W w v) :
    Mirrored (Mirrors R) W (r.perform group clear w op) (s.perform group' clear' v op') := by
  cases hop with
  | run hblocks =>
    obtain ⟨hanswer, hrunner, hw'⟩ := add_mirrored h hrs (hgroup hblocks) hw
    exact ⟨congrArg Operation.Answer.started hanswer, hrunner, hw'⟩
  | runBlock hblock =>
    obtain ⟨hanswer, hrunner, hw'⟩ := add_mirrored h hrs hblock hw
    exact ⟨congrArg Operation.Answer.started hanswer, hrunner, hw'⟩
  | process dt =>
    obtain ⟨hanswer, hrunner, hw'⟩ := process_mirrored h (rfl : dt = dt) hrs hw
    exact ⟨congrArg Operation.Answer.ticked hanswer, hrunner, hw'⟩
  | cancel id =>
    obtain ⟨hanswer, hrunner, hw'⟩ := cancel_mirrored h hrs id hw
    exact ⟨congrArg Operation.Answer.cancelled hanswer, hrunner, hw'⟩
  | dispose => exact ⟨rfl, ⟨.nil, hrs.nextId⟩, hclear w v hw⟩
  | host hchange => exact ⟨rfl, hrs, hchange w v hw⟩

end Runner

namespace Context

variable {α : Type u} {α' : Type u'} {σ : Type v} {τ : Type v'}

/-- Performs an operation. -/
def perform [Block α σ] (c : Context α σ) (w : σ) : Operation (Tree α σ) σ → Operation.Answer × Context α σ × σ
  | .run blocks => let (id, c, w) := c.run blocks w; (.started id, c, w)
  | .runBlock block => let (id, c, w) := c.runBlock block w; (.started id, c, w)
  | .process dt => let (outcome, c, w) := c.process dt w; (.ticked outcome, c, w)
  | .cancel id => let (found, c, w) := c.cancel id w; (.cancelled found, c, w)
  | .dispose => (.done, c.dispose w)
  | .host change => (.done, c, change w)

/-- No operation changes through which slot a context acts. -/
theorem perform_actions [Block α σ] (c : Context α σ) (w : σ) (op : Operation (Tree α σ) σ) : (c.perform w op).2.1.actions = c.actions := by
  cases op <;> rfl

/-- An operation on a context is the operation on its runner. -/
theorem perform_eq [Block α σ] (c : Context α σ) (w : σ) (op : Operation (Tree α σ) σ) :
    c.perform w op =
      let (answer, runner, w) := c.runner.perform .ofList c.actions.clear w op
      (answer, { c with runner }, w) := by
  cases op <;> rfl

/-- Contexts with roots that mirror each other, and with slots that are emptied alike. -/
structure Mirrors (L : α → α' → Prop) (K : LoopKind σ → LoopKind τ → Prop) (W : σ → τ → Prop) (c : Context α σ) (d : Context α' τ) :
    Prop where
  runner : c.runner.Mirrors (Tree.Mirrors L K) d.runner
  clear : ∀ w v, W w v → W (c.actions.clear w) (d.actions.clear v)

variable [Block α σ] [Block α' τ] {L : α → α' → Prop} {K : LoopKind σ → LoopKind τ → Prop} {W : σ → τ → Prop} {c : Context α σ}
  {d : Context α' τ} {w : σ} {v : τ}

/-- Every operation on contexts that mirror each other is answered alike and leaves them so. -/
theorem perform_mirrored (h : Mirror (Tree.Mirrors L K) W Eq) (hcd : c.Mirrors L K W d) {op : Operation (Tree α σ) σ}
    {op' : Operation (Tree α' τ) τ} (hop : op.Mirrors (Tree.Mirrors L K) (fun f g => ∀ w v, W w v → W (f w) (g v)) op') (hw : W w v) :
    Mirrored (Mirrors L K W) W (c.perform w op) (d.perform v op') := by
  obtain ⟨hanswer, hrunner, hw'⟩ := Runner.perform_mirrored h .sequence hcd.clear hcd.runner hop hw
  rw [perform_eq, perform_eq]
  exact ⟨hanswer, ⟨hrunner, hcd.clear⟩, hw'⟩

/-- What blocks uphold is upheld by every operation with such blocks. -/
theorem perform_upholds {S : α → Prop} {T : LoopKind σ → Prop} {I : σ → Prop} {Q : Outcome → Prop}
    (h : Upholds (fun t : Tree α σ => Tree.All S T t) I Q) (hQ : Q (.ok ())) (hc : ∀ x ∈ c.runner.roots, Tree.All S T x.2)
    (hclear : ∀ w, I w → I (c.actions.clear w)) {op : Operation (Tree α σ) σ}
    (hop : op.Brings (Tree.All S T) fun change => ∀ w, I w → I (change w)) (hw : I w) :
    (∀ x ∈ (c.perform w op).2.1.runner.roots, Tree.All S T x.2) ∧ I (c.perform w op).2.2 := by
  cases op with
  | run blocks => exact (Runner.add_upholds h hc (Tree.All.sequence hop : Tree.All S T (.ofList blocks)) hw).2
  | runBlock block => exact (Runner.add_upholds h hc hop hw).2
  | process dt => exact (Runner.advance_upholds h hQ dt hc hw).2
  | cancel id => exact Runner.cancel_upholds h hc id hw
  | dispose => exact ⟨nofun, hclear w hw⟩
  | host change => exact ⟨hc, hop w hw⟩

end Context

/-! ## Histories -/

section

variable {ι : Type w} [DecidableEq ι] {α : Type u} {α' : Type u'} {σ : Type v} {τ : Type v'} [Block α σ] [Block α' τ]

/-- Performs operations one after another, each on the context of its index. -/
def performAll (contexts : ι → Context α σ) (w : σ) :
    List (ι × Operation (Tree α σ) σ) → List (ι × Operation.Answer) × (ι → Context α σ) × σ
  | [] => ([], contexts, w)
  | (i, op) :: ops =>
    let (answer, c, w) := (contexts i).perform w op
    let (answers, contexts, w) := performAll (Function.update contexts i c) w ops
    ((i, answer) :: answers, contexts, w)

omit [Block α' τ] in
/-- A history from its first operation on. -/
theorem performAll_cons (contexts : ι → Context α σ) (w : σ) (i : ι) (op : Operation (Tree α σ) σ)
    (ops : List (ι × Operation (Tree α σ) σ)) :
    performAll contexts w ((i, op) :: ops) =
      let first := (contexts i).perform w op
      let rest := performAll (Function.update contexts i first.2.1) first.2.2 ops
      ((i, first.1) :: rest.1, rest.2) := rfl

variable {L : α → α' → Prop} {K : LoopKind σ → LoopKind τ → Prop} {W : σ → τ → Prop}

omit [Block α σ] [Block α' τ] in
/-- Contexts that mirror each other one by one still do so where one of them is replaced on both sides. -/
theorem update_mirrored {contexts : ι → Context α σ} {contexts' : ι → Context α' τ}
    (hcontexts : ∀ i, (contexts i).Mirrors L K W (contexts' i)) {i : ι} {c : Context α σ} {d : Context α' τ} (hcd : c.Mirrors L K W d)
    (j : ι) : (Function.update contexts i c j).Mirrors L K W (Function.update contexts' i d j) := by
  by_cases hj : j = i
  · subst hj
    rwa [Function.update_self, Function.update_self]
  · rw [Function.update_of_ne hj, Function.update_of_ne hj]
    exact hcontexts j

/-- Every history on contexts that mirror each other is answered alike and leaves them so. -/
theorem performAll_mirrored (h : Mirror (Tree.Mirrors L K) W Eq) {ops : List (ι × Operation (Tree α σ) σ)}
    {ops' : List (ι × Operation (Tree α' τ) τ)}
    (hops : List.Forall₂ (fun x y => x.1 = y.1 ∧
      x.2.Mirrors (Tree.Mirrors L K) (fun f g => ∀ w v, W w v → W (f w) (g v)) y.2) ops ops')
    {contexts : ι → Context α σ} {contexts' : ι → Context α' τ} (hcontexts : ∀ i, (contexts i).Mirrors L K W (contexts' i))
    {w : σ} {v : τ} (hw : W w v) :
    Mirrored (fun c d => ∀ i, (c i).Mirrors L K W (d i)) W (performAll contexts w ops) (performAll contexts' v ops') := by
  induction hops generalizing contexts contexts' w v with
  | nil => exact ⟨rfl, hcontexts, hw⟩
  | @cons x y _ _ hxy _ ih =>
    obtain ⟨i, op⟩ := x
    obtain ⟨j, op'⟩ := y
    obtain ⟨rfl, hop⟩ := hxy
    obtain ⟨hanswer, hcontext, hw'⟩ := Context.perform_mirrored h (hcontexts i) hop hw
    obtain ⟨hanswers, hcontexts', hw''⟩ := ih (update_mirrored hcontexts hcontext) hw'
    exact ⟨congrArg₂ List.cons (congrArg (Prod.mk i) hanswer) hanswers, hcontexts', hw''⟩

end

/-! ## Plans -/

/-- A leaf as a builder makes it: an action or a wait through the handle of the context whose builder it is, a callback, or a test that
is waited for. -/
inductive Made (ι : Type w) (σ : Type v) where
  | action (owner : ι) (record : ActionRecord)
  | wait (owner : ι) (seconds : Float)
  | attempt (callback : σ → Outcome × σ)
  | condition (test : σ → Bool × σ)

/-- What an action asks of a provider. -/
def ActionRecord.request {σ : Type v} : ActionRecord → Provider σ → σ → σ
  | log message, p => p.log message
  | say message seconds, p => p.say message seconds
  | sound name volume, p => p.playSound name volume

/-- The leaf itself, by the handles of the contexts. -/
def Made.block {ι : Type w} {σ : Type v} (handles : ι → ActionsHandle σ) : Made ι σ → Primitive σ
  | action i (.log message) => .log (handles i) message
  | action i (.say message seconds) => .say (handles i) message seconds
  | action i (.sound name volume) => .playSound (handles i) name volume
  | wait i seconds => .waitFor (handles i) seconds
  | attempt callback => .attempt callback
  | condition test => .waitUntil test

/-- An action lets the provider of the moment act. -/
theorem Made.block_action {ι : Type w} {σ : Type v} (handles : ι → ActionsHandle σ) (owner : ι) (record : ActionRecord) :
    (action owner record).block handles = .attempt ((handles owner).act record.request) := by
  cases record <;> rfl

/-- A tree of leaves that are to be made. -/
abbrev Plan (ι : Type w) (σ : Type v) := Tree (Made ι σ) σ

namespace Tree

variable {α : Type u} {β : Type u'} {γ : Type u₃} {ρ : Type v} {σ : Type v'} {τ : Type v₃}

mutual

/-- The tree with other leaves and loops. -/
def mapLeaves (f : α → β) (g : LoopKind ρ → LoopKind σ) : Tree α ρ → Tree β σ
  | leaf b => leaf (f b)
  | sequence cs i e => sequence (mapLeavesAll f g cs) i e
  | loop k cs i s e => loop (g k) (mapLeavesAll f g cs) i s e
termination_by structural t => t

/-- `mapLeaves` for each tree of a list. -/
def mapLeavesAll (f : α → β) (g : LoopKind ρ → LoopKind σ) : List (Tree α ρ) → List (Tree β σ)
  | [] => []
  | c :: cs => mapLeaves f g c :: mapLeavesAll f g cs
termination_by structural cs => cs

end

/-- Two trees made from one mirror each other, if what is made of each leaf and of each loop does. -/
theorem mirrors_mapLeaves {L : β → γ → Prop} {K : LoopKind σ → LoopKind τ → Prop} {S : α → Prop} {T : LoopKind ρ → Prop}
    {f : α → β} {f' : α → γ} {g : LoopKind ρ → LoopKind σ} {g' : LoopKind ρ → LoopKind τ} (hf : ∀ b, S b → L (f b) (f' b))
    (hg : ∀ k, T k → K (g k) (g' k)) {t : Tree α ρ} (h : All S T t) : Mirrors L K (mapLeaves f g t) (mapLeaves f' g' t) := by
  have hlists : ∀ {cs : List (Tree α ρ)}, (∀ c ∈ cs, Mirrors L K (mapLeaves f g c) (mapLeaves f' g' c)) →
      List.Forall₂ (Mirrors L K) (mapLeavesAll f g cs) (mapLeavesAll f' g' cs) := by
    intro cs hcs
    induction cs with
    | nil => exact .nil
    | cons c cs ih => exact .cons (hcs c (by simp)) (ih fun d hd => hcs d (by simp [hd]))
  induction h with
  | leaf hb => exact .leaf (hf _ hb)
  | sequence _ ih => exact .sequence (hlists ih)
  | loop hk _ ih => exact .loop (hg _ hk) (hlists ih)

/-- What holds of the leaves and the loops that a tree is made of holds of all of them. -/
theorem all_mapLeaves {S : α → Prop} {T : LoopKind ρ → Prop} {S' : β → Prop} {T' : LoopKind σ → Prop} {f : α → β}
    {g : LoopKind ρ → LoopKind σ} (hf : ∀ b, S b → S' (f b)) (hg : ∀ k, T k → T' (g k)) {t : Tree α ρ} (h : All S T t) :
    All S' T' (mapLeaves f g t) :=
  (mirrors_mapLeaves (L := fun b c => b = c ∧ S' b) (K := fun k l => k = l ∧ T' k) (fun b hb => ⟨rfl, hf b hb⟩)
    (fun k hk => ⟨rfl, hg k hk⟩) h).eq.2

end Tree

/-- An operation with the blocks that are planned for it. -/
def Operation.build {ι : Type w} {σ : Type v} (handles : ι → ActionsHandle σ) (op : Operation (Plan ι σ) σ) : Operation (BuiltIn σ) σ :=
  op.map (Tree.mapLeaves (Made.block handles) id) id

/-- What comes of operations on new contexts, with the blocks that are planned for them. -/
def performFresh {ι : Type w} [DecidableEq ι] {σ : Type v} (handles : ι → ActionsHandle σ) (w : σ)
    (ops : List (ι × Operation (Plan ι σ) σ)) : List (ι × Operation.Answer) × (ι → Context (Primitive σ) σ) × σ :=
  performAll (fun i => .new (handles i)) w (ops.map fun x => (x.1, x.2.build handles))

end BlockScript
