import BlockScript.Proofs.Context.Division

/-!
# Contexts are independent

If the world is divided among contexts, and if all that is done for a context is private to it, its callbacks, its tests and what the
host does on its behalf, then each of its operations takes place within its part of the world: it is the same operation wherever the part
is the same (`Division.perform_own`), and no other context sees it (`Division.perform_unseen`). So, by induction on the operations, every
context fares as if the others were not there (`contexts_independent`).
-/

namespace BlockScript

namespace Division

variable {ι : Type w} {σ : Type v} {π : Type u}

section

variable (d : Division ι σ π)

/-- A leaf from the builder of a context, with a callback or a test that is private to it. -/
def PrivateLeaf (i : ι) : Made ι σ → Prop
  | .action owner _ => owner = i
  | .wait owner _ => owner = i
  | .attempt callback => d.Private i callback
  | .condition test => d.Private i test

/-- An operation that is private to a context: its blocks come from the builder of the context, and all that they call is private. -/
def PrivateOperation (i : ι) (op : Operation (Plan ι σ) σ) : Prop :=
  op.Brings (Tree.All (d.PrivateLeaf i) (d.PrivateLoop i)) (d.PrivateChange i)

end

variable {d : Division ι σ π} {i : ι}

/-! ## Blocks whose calls are private -/

/-- What a leaf calls is private to a context. -/
def Confines (d : Division ι σ π) (i : ι) : Primitive σ → Prop
  | .execute callback _ => d.Private i callback
  | .wait _ _ _ clock => d.Private i clock.currentTime
  | .condition test _ => d.Private i test

/-- Leaves that are made of the same are confined together. -/
theorem Confines.of_akin {b c : Primitive σ} (hbc : b.Akin c) (h : d.Confines i b) : d.Confines i c := by
  cases hbc <;> exact h

/-- A leaf that is confined to a context calls what answers alike where the context's part is alike. -/
theorem Confines.respects {b : Primitive σ} (h : d.Confines i b) : b.Respects (d.Alike i) := by
  cases b <;> exact Private.responds h

/-- A leaf that is confined to a context leaves the parts of the other contexts. -/
theorem Confines.keeps {b : Primitive σ} (h : d.Confines i b) {j : ι} (hj : j ≠ i) (look : π) :
    b.Keeps (d.Looks j look) fun _ => True := by
  cases b with
  | execute callback _ => exact fun w hw => ⟨trivial, Private.keeps h hj hw⟩
  | wait _ _ _ clock => exact fun w hw => ⟨trivial, Private.keeps h hj hw⟩
  | condition test _ => exact fun w hw => Private.keeps h hj hw

/-- All leaves and loops of a tree are confined to the part of a context. -/
abbrev Contained (d : Division ι σ π) (i : ι) : BuiltIn σ → Prop := Tree.All (d.Confines i) (d.PrivateLoop i)

/-- The same leaf, confined to the part of a context. -/
abbrev SameLeaf (d : Division ι σ π) (i : ι) (b c : Primitive σ) : Prop := b = c ∧ d.Confines i b

/-- The same loop, confined to the part of a context. -/
abbrev SameLoop (d : Division ι σ π) (i : ι) (k l : LoopKind σ) : Prop := k = l ∧ d.PrivateLoop i k

/-- In worlds that look alike to a context, trees that are contained in its part stay the same. -/
theorem contained_mirror (d : Division ι σ π) (i : ι) : Mirror (Tree.Mirrors (d.SameLeaf i) (d.SameLoop i)) (d.Alike i) Eq := by
  refine Tree.mirror (Primitive.mirror_self Confines.of_akin Confines.respects) ?_
  rintro k _ ⟨rfl, hk⟩
  exact hk.responds

/-- No call on a tree that is contained in the part of one context is seen by another. -/
theorem contained_upholds (d : Division ι σ π) {i j : ι} (hj : j ≠ i) (look : π) :
    Upholds (d.Contained i) (d.Looks j look) fun _ => True :=
  Tree.upholds (Primitive.upholds_of_lasting trivial Confines.of_akin fun hb => hb.keeps hj look) trivial
    fun _ hk _ hw => Private.keeps hk hj hw

/-- What is built from leaves that are private to a context is confined to its part. -/
theorem confines_block {handles : ι → ActionsHandle σ} (h : d.Separates handles) {b : Made ι σ} (hb : d.PrivateLeaf i b) :
    d.Confines i (b.block handles) := by
  cases b with
  | action owner record =>
    obtain rfl : owner = i := hb
    rw [Made.block_action]
    exact h.act owner record
  | wait owner seconds =>
    obtain rfl : owner = i := hb
    exact h.currentTime owner
  | attempt callback => exact hb
  | condition test => exact hb

/-! ## Operations -/

/-- All roots of a context are contained in its part. -/
structure Keeps (d : Division ι σ π) (i : ι) (c : Context (Primitive σ) σ) : Prop where
  roots : ∀ x ∈ c.runner.roots, d.Contained i x.2
  clear : d.PrivateChange i c.actions.clear

/-- A context whose roots are contained in its part mirrors itself. -/
theorem Keeps.mirrors {c : Context (Primitive σ) σ} (h : d.Keeps i c) :
    c.Mirrors (d.SameLeaf i) (d.SameLoop i) (d.Alike i) c where
  runner := ⟨List.forall₂_same.mpr fun x hx => ⟨rfl, .self (h.roots x hx)⟩, rfl⟩
  clear w v hw := (h.clear.responds w v hw).2

/-- Contexts that mirror each other in all their roots have the same roots, all contained in the part of the context. -/
theorem eq_of_mirrors {c c' : Context (Primitive σ) σ} (h : c.Mirrors (d.SameLeaf i) (d.SameLoop i) (d.Alike i) c')
    (hactions : c.actions = c'.actions) : c = c' ∧ ∀ x ∈ c.runner.roots, d.Contained i x.2 := by
  have hroots : ∀ {xs ys : List (Nat × BuiltIn σ)},
      List.Forall₂ (Runner.RootMirrors (Tree.Mirrors (d.SameLeaf i) (d.SameLoop i))) xs ys →
      xs = ys ∧ ∀ x ∈ xs, d.Contained i x.2 := by
    intro xs ys hxys
    induction hxys with
    | nil => exact ⟨rfl, nofun⟩
    | cons hxy _ ih =>
      obtain ⟨heq, hall⟩ := hxy.2.eq
      obtain ⟨rfl, hcontained⟩ := ih
      exact ⟨congrArg (· :: _) (Prod.ext hxy.1 heq), List.forall_mem_cons.mpr ⟨hall, hcontained⟩⟩
  obtain ⟨actions, roots, nextId⟩ := c
  obtain ⟨actions', roots', nextId'⟩ := c'
  obtain rfl : actions = actions' := hactions
  obtain rfl : nextId = nextId' := h.runner.nextId
  obtain ⟨rfl, hcontained⟩ := hroots h.runner.roots
  exact ⟨rfl, hcontained⟩

/-- An operation that is private to a context, as it is built. -/
def PrivateBuilt (d : Division ι σ π) (i : ι) (op : Operation (BuiltIn σ) σ) : Prop := op.Brings (d.Contained i) (d.PrivateChange i)

/-- A private operation brings private blocks once these are built. -/
theorem PrivateOperation.build {handles : ι → ActionsHandle σ} (h : d.Separates handles) {op : Operation (Plan ι σ) σ}
    (hop : d.PrivateOperation i op) : d.PrivateBuilt i (op.build handles) :=
  Operation.brings_map (fun _ ht => Tree.all_mapLeaves (fun _ hb => confines_block h hb) (fun _ hk => hk) ht) (fun _ hchange => hchange) hop

/-- An operation that is private to a context, in worlds that look alike to it. -/
theorem perform_alike {c : Context (Primitive σ) σ} (hc : d.Keeps i c) {op : Operation (BuiltIn σ) σ} (hop : d.PrivateBuilt i op)
    {w v : σ} (hwv : d.Alike i w v) :
    Mirrored (Context.Mirrors (d.SameLeaf i) (d.SameLoop i) (d.Alike i)) (d.Alike i) (c.perform w op) (c.perform v op) := by
  have hmirrors : op.Mirrors (Tree.Mirrors (d.SameLeaf i) (d.SameLoop i)) (fun f g => ∀ w v, d.Alike i w v → d.Alike i (f w) (g v)) op := by
    cases op with
    | run blocks => exact .run (List.forall₂_same.mpr fun t ht => .self (hop t ht))
    | runBlock block => exact .runBlock (.self hop)
    | process dt => exact .process dt
    | cancel id => exact .cancel id
    | dispose => exact .dispose
    | host change => exact .host fun w v hw => (hop.responds w v hw).2
  exact Context.perform_mirrored (contained_mirror d i) hc.mirrors hmirrors hwv

/-- An operation of its own is answered alike and leaves the same context, in worlds that look alike to it. -/
theorem perform_own {c : Context (Primitive σ) σ} (hc : d.Keeps i c) {op : Operation (BuiltIn σ) σ} (hop : d.PrivateBuilt i op) {w v : σ}
    (hwv : d.Alike i w v) : (c.perform w op).1 = (c.perform v op).1 ∧ (c.perform w op).2.1 = (c.perform v op).2.1 ∧
      d.Alike i (c.perform w op).2.2 (c.perform v op).2.2 := by
  obtain ⟨hanswer, hcontext, hworld⟩ := perform_alike hc hop hwv
  have hactions : (c.perform w op).2.1.actions = (c.perform v op).2.1.actions :=
    (c.perform_actions w op).trans (c.perform_actions v op).symm
  exact ⟨hanswer, (eq_of_mirrors hcontext hactions).1, hworld⟩

/-- A context keeps to its part. -/
theorem perform_keeps {c : Context (Primitive σ) σ} (hc : d.Keeps i c) {op : Operation (BuiltIn σ) σ} (hop : d.PrivateBuilt i op) {w : σ}
    (hw : d.Apart w) : d.Keeps i (c.perform w op).2.1 where
  roots := (eq_of_mirrors (perform_alike hc hop ⟨hw, hw, rfl⟩).block rfl).2
  clear := (c.perform_actions w op).symm ▸ hc.clear

/-- No other context sees an operation. -/
theorem perform_unseen {c : Context (Primitive σ) σ} (hc : d.Keeps i c) {op : Operation (BuiltIn σ) σ} (hop : d.PrivateBuilt i op) {j : ι}
    (hj : j ≠ i) {look : π} {w : σ} (hw : d.Looks j look w) : d.Looks j look (c.perform w op).2.2 := by
  have hkeeps : op.Brings (d.Contained i) fun change => ∀ w, d.Looks j look w → d.Looks j look (change w) := by
    cases op with
    | host change => exact fun w hw => Private.keeps hop hj hw
    | _ => exact hop
  exact (Context.perform_upholds (contained_upholds d hj look) trivial hc.roots (fun w hw => Private.keeps hc.clear hj hw) hkeeps hw).2

variable [DecidableEq ι]

/-- The context of an index fares in a history as in that of its own operations alone. -/
theorem performAll_own (i : ι) {ops : List (ι × Operation (BuiltIn σ) σ)} (hops : ∀ x ∈ ops, d.PrivateBuilt x.1 x.2)
    (contexts alone : ι → Context (Primitive σ) σ) (hcontexts : ∀ j, d.Keeps j (contexts j)) (halone : alone i = contexts i) {w v : σ}
    (hwv : d.Alike i w v) :
    (performAll contexts w ops).1.filter (·.1 = i) = (performAll alone v (ops.filter (·.1 = i))).1 ∧
      (performAll contexts w ops).2.1 i = (performAll alone v (ops.filter (·.1 = i))).2.1 i ∧
      d.Alike i (performAll contexts w ops).2.2 (performAll alone v (ops.filter (·.1 = i))).2.2 := by
  induction ops generalizing contexts alone w v with
  | nil => exact ⟨rfl, halone.symm, hwv⟩
  | cons x ops ih =>
    obtain ⟨j, op⟩ := x
    obtain ⟨hop, hrest⟩ := List.forall_mem_cons.mp hops
    have hkept : ∀ k, d.Keeps k (Function.update contexts j ((contexts j).perform w op).2.1 k) :=
      (Function.forall_update_iff contexts fun k c => d.Keeps k c).mpr
        ⟨perform_keeps (hcontexts j) hop hwv.1, fun k _ => hcontexts k⟩
    by_cases hj : j = i
    · subst hj
      obtain ⟨hanswer, hcontext, hworld⟩ := perform_own (hcontexts j) hop hwv
      have hsame : Function.update alone j ((contexts j).perform v op).2.1 j =
          Function.update contexts j ((contexts j).perform w op).2.1 j := by
        rw [Function.update_self, Function.update_self, hcontext]
      obtain ⟨hanswers, hcontext', hworld'⟩ := ih hrest _ _ hkept hsame hworld
      have hown : ((j, op) :: ops).filter (·.1 = j) = (j, op) :: ops.filter (·.1 = j) := List.filter_cons_of_pos (by simp)
      rw [hown, performAll_cons, performAll_cons, halone, List.filter_cons_of_pos (by simp), hanswer]
      exact ⟨congrArg _ hanswers, hcontext', hworld'⟩
    · have hlooks : d.Looks i (d.part i w) ((contexts j).perform w op).2.2 :=
        perform_unseen (hcontexts j) hop (Ne.symm hj) ⟨hwv.1, rfl⟩
      have hsame : alone i = Function.update contexts j ((contexts j).perform w op).2.1 i := by
        rw [Function.update_of_ne (Ne.symm hj), halone]
      have hother : ((j, op) :: ops).filter (·.1 = i) = ops.filter (·.1 = i) := List.filter_cons_of_neg (by simpa using hj)
      rw [hother, performAll_cons, List.filter_cons_of_neg (by simpa using hj)]
      exact ih hrest _ _ hkept hsame ⟨hlooks.1, hwv.2.1, hlooks.2.trans hwv.2.2⟩

end Division

section

variable {ι : Type w} [DecidableEq ι] {σ : Type v} {π : Type u}

/-- A slot holds a provider exactly if an action through it succeeds. -/
theorem ActionsHandle.isInstalled_eq (h : ActionsHandle σ) (action : Provider σ → σ → σ) (w : σ) :
    h.isInstalled w = (h.act action w).1.isOk := by
  rw [isInstalled, act]
  cases h.provider? w <;> rfl

/-- Contexts are independent. Let contexts have slots and providers of their own, and let operations be made on them in any order, each
with blocks from the builder of its context and with callbacks, tests and changes that are private to it. Then the answers of the
operations of a context, its roots with their ids, its slot and all else that belongs to its part of the world, the records of its
provider among it, are what they are if its operations alone are made, in the same order. -/
theorem contexts_independent (d : Division ι σ π) {handles : ι → ActionsHandle σ} (hhandles : d.Separates handles)
    {ops : List (ι × Operation (Plan ι σ) σ)} (hops : ∀ x ∈ ops, d.PrivateOperation x.1 x.2) {w : σ} (hw : d.Apart w) (i : ι) :
    let all := performFresh handles w ops
    let alone := performFresh handles w (ops.filter (·.1 = i))
    all.1.filter (·.1 = i) = alone.1 ∧ all.2.1 i = alone.2.1 i ∧ d.part i all.2.2 = d.part i alone.2.2 ∧
      (handles i).isInstalled all.2.2 = (handles i).isInstalled alone.2.2 := by
  have hbuilt : ∀ x ∈ ops.map fun x => (x.1, x.2.build handles), d.PrivateBuilt x.1 x.2 :=
    List.forall_mem_map.mpr fun x hx => Division.PrivateOperation.build hhandles (hops x hx)
  have hfresh : ∀ j, d.Keeps j (Context.new (handles j)) := fun j => ⟨nofun, hhandles.clear j⟩
  have hfilter : (ops.map fun x => (x.1, x.2.build handles)).filter (·.1 = i) =
      (ops.filter (·.1 = i)).map fun x => (x.1, x.2.build handles) := List.filter_map
  obtain ⟨hanswers, hcontext, hworld⟩ := Division.performAll_own i hbuilt _ (fun j => .new (handles j)) hfresh rfl ⟨hw, hw, rfl⟩
  rw [hfilter] at hanswers hcontext hworld
  refine ⟨hanswers, hcontext, hworld.2.2, ?_⟩
  rw [(handles i).isInstalled_eq (ActionRecord.log "").request, (handles i).isInstalled_eq (ActionRecord.log "").request]
  exact congrArg Except.isOk ((hhandles.act i (.log "")).alike _ _ hworld).1

end

/-! ## Two contexts on a recording host -/

/-- A switch for each of two contexts. -/
def switches : Fin 2 → Bool × Bool → Bool
  | 0, s => s.1
  | 1, s => s.2

/-- The first context's callback turns its switch. -/
def flick (w : Recording (Bool × Bool)) : Outcome × Recording (Bool × Bool) := (.ok (), { w with state := (!w.state.1, w.state.2) })

/-- The first context's greeting: it says something, turns its switch and waits. -/
def salute : List (Plan (Fin 2) (Recording (Bool × Bool))) :=
  [.leaf (.action 0 (.say "hello" 1.0)), .leaf (.attempt flick), .leaf (.wait 0 1.0)]

/-- The first context gets a new recorder and runs its greeting, while the second one logs in vain and is disposed of. -/
def duo : List (Fin 2 × Operation (Plan (Fin 2) (Recording (Bool × Bool))) (Recording (Bool × Bool))) :=
  [(0, .host (Recording.installNew 0)), (1, .runBlock (.leaf (.action 1 (.log "lost")))), (0, .run salute), (1, .process 1.0),
    (0, .process 1.0), (1, .host (Recording.advance 1 1.0)), (1, .dispose), (0, .process 1.0)]

/-- Turning the first switch is private to the first context. -/
theorem flick_private : (Recording.division switches).Private 0 flick := by
  have hown : ∀ s t, switches 0 s = switches 0 t → switches 0 (!s.1, s.2) = switches 0 (!t.1, t.2) := fun _ _ hst => congrArg not hst
  refine Recording.state_private 0 (f := fun s => ((.ok (), (!s.1, s.2)) : Outcome × (Bool × Bool))) (fun s t hst => ⟨rfl, hown s t hst⟩)
    fun j hj s => ?_
  match j with
  | 0 => exact absurd rfl hj
  | 1 => rfl

/-- The greeting of the first context is private to it. -/
theorem salute_private : ∀ t ∈ salute,
    Tree.All ((Recording.division switches).PrivateLeaf 0) ((Recording.division switches).PrivateLoop 0) t := by
  simp only [salute, List.forall_mem_cons]
  exact ⟨.leaf rfl, .leaf flick_private, .leaf rfl, nofun⟩

/-- A context that speaks beside one that logs in vain and is disposed of. -/
theorem contexts_independent_duo :
    (Recording.division switches).Separates (fun i : Fin 2 => Recording.handle i) ∧
      (∀ x ∈ duo, (Recording.division switches).PrivateOperation x.1 x.2) ∧
      (Recording.division switches).Apart (Recording.new 2 false (false, false)) ∧
      let all := performFresh (fun i : Fin 2 => Recording.handle i) (Recording.new 2 false (false, false)) duo
      let alone := performFresh (fun i : Fin 2 => Recording.handle i) (Recording.new 2 false (false, false)) (duo.filter (·.1 = 0))
      all.1.filter (·.1 = 0) = alone.1 ∧ all.2.1 0 = alone.2.1 0 ∧
        (Recording.division switches).part 0 all.2.2 = (Recording.division switches).part 0 alone.2.2 ∧
        (Recording.handle 0).isInstalled all.2.2 = (Recording.handle 0).isInstalled alone.2.2 := by
  have hduo : ∀ x ∈ duo, (Recording.division switches).PrivateOperation x.1 x.2 := by
    simp only [duo, List.forall_mem_cons]
    exact ⟨Recording.installNew_private 0, .leaf rfl, salute_private, trivial, trivial, Recording.tend_private 1 (·.advance 1.0), trivial,
      trivial, nofun⟩
  have hnew := Recording.divided_new 2 false (false, false)
  exact ⟨Recording.separates switches, hduo, hnew, contexts_independent _ (Recording.separates switches) hduo hnew 0⟩

end BlockScript
