import BlockScript.Proofs.Context.Firings
import BlockScript.Proofs.Context.Sketch

/-!
# Contexts in the world

Here the contexts of a host are part of the world that callbacks and tests see (`Estate`), so that these may run, process, cancel and
dispose of any context that is not in use at the moment, with callbacks that do the same in turn. What a callback does is a `Routine`,
and what the names in sketches stand for is a `Playbook`. A context is in use while one of its operations is under way; what is asked of
it meanwhile is refused. An operation on a context is otherwise the operation of that context on its roots, in the world as it is
(`Estate.operate_performsAs`), and it leaves alone what is in use (`Estate.operate_runners`).
-/

namespace BlockScript

/-- A recording host with the runners of its contexts, and with a ledger of firings where one is kept. -/
structure Estate (κ μ : Type) where
  host : Recording μ
  runners : Nat → Runner (Sketch κ)
  ledger : Option (List Firing)

/-- What a callback or a test does, step by step. -/
inductive Routine (κ μ γ : Type) where
  | done (answer : γ)
  /-- Looks at the host, and at the contexts that are not in use. -/
  | look (next : Recording μ → (Nat → Option (Runner (Sketch κ))) → Routine κ μ γ)
  | change (f : Recording μ → Recording μ) (next : Routine κ μ γ)
  /-- Asks for an operation on a context, which is not answered where the context is in use. -/
  | operate (context : Nat) (op : Operation (Sketch κ) (Recording μ)) (next : Option Operation.Answer → Routine κ μ γ)

/-- What the callbacks and tests that sketches name do. -/
structure Playbook (κ μ : Type) where
  callback : κ → Routine κ μ Outcome
  test : κ → Routine κ μ Bool

variable {κ μ γ : Type}

/-- An operation changes the host by itself only as `C` allows. -/
abbrev Operation.Makes (C : (Recording μ → Recording μ) → Prop) (op : Operation (Sketch κ) (Recording μ)) : Prop :=
  op.Brings (fun _ => True) C

/-- So does a routine in each of its steps, and every operation that it asks for. -/
def Routine.Makes (C : (Recording μ → Recording μ) → Prop) : Routine κ μ γ → Prop
  | done _ => True
  | look next => ∀ host shown, (next host shown).Makes C
  | change f next => C f ∧ next.Makes C
  | operate _ op next => op.Makes C ∧ ∀ answer, (next answer).Makes C

/-- A routine may change the host in any way. -/
theorem Routine.makes_true (routine : Routine κ μ γ) : routine.Makes fun _ => True := by
  induction routine with
  | done answer => trivial
  | look next ih => exact ih
  | change f next ih => exact ⟨trivial, ih⟩
  | operate i op next ih => exact ⟨op.brings_of_forall (fun _ => trivial) fun _ => trivial, ih⟩

/-- So do all callbacks and tests. -/
structure Playbook.Makes (C : (Recording μ → Recording μ) → Prop) (book : Playbook κ μ) : Prop where
  callback : ∀ k, (book.callback k).Makes C
  test : ∀ k, (book.test k).Makes C

namespace Estate

/-! ## The host -/

/-- Changes the host. -/
def onHost (f : Recording μ → Recording μ) (w : Estate κ μ) : Estate κ μ := { w with host := f w.host }

/-- Replaces the runner of a context. -/
def put (i : Nat) (r : Runner (Sketch κ)) (w : Estate κ μ) : Estate κ μ := { w with runners := Function.update w.runners i r }

/-- Replacing the runner of a context leaves those of the others. -/
theorem put_runners_of_ne {i j : Nat} (h : j ≠ i) (r : Runner (Sketch κ)) (w : Estate κ μ) : (w.put i r).runners j = w.runners j := by
  simp only [put, Function.update_of_ne h]

/-- A provider of the host. -/
def provider (p : Provider (Recording μ)) : Provider (Estate κ μ) where
  log message := onHost (p.log message)
  say message seconds := onHost (p.say message seconds)
  playSound name volume := onHost (p.playSound name volume)
  now w := ((p.now w.host).1, { w with host := (p.now w.host).2 })

/-- The handle to a context's slot. -/
def handle (i : Nat) : ActionsHandle (Estate κ μ) where
  provider? w := ((Recording.handle i).provider? w.host).map provider
  clear := onHost (Recording.handle i).clear

/-- The callback of a block that acts. The block fires, which is entered in the ledger where one is kept. -/
def act (owner : Nat) (record : ActionRecord) (w : Estate κ μ) : Outcome × Estate κ μ :=
  let (firing, host) := Recording.fire owner record w.host
  (firing.outcome, { w with host, ledger := w.ledger.map (· ++ [firing]) })

/-- Where no ledger is kept, a block that acts lets the provider of the moment act and does nothing else. -/
theorem act_of_ledger_none {w : Estate κ μ} (h : w.ledger = none) (owner : Nat) (record : ActionRecord) :
    act owner record w = (handle owner).act record.request w := by
  obtain ⟨host, runners, ledger⟩ := w
  obtain rfl : ledger = none := h
  cases hn : host.slot owner with
  | none => simp only [act, Recording.fire, ActionsHandle.act, handle, Recording.provider_of_none hn, Option.map_none]
  | some n =>
    simp only [act, Recording.fire, ActionsHandle.act, handle, Recording.provider_of_some hn, Option.map_some]
    cases record <;> rfl

/-- Reading a clock changes nothing. -/
theorem currentTime_eq (i : Nat) (w : Estate κ μ) : (handle i).currentTime w = (((Recording.handle i).currentTime w.host).1, w) := by
  cases hn : w.host.slot i with
  | none => simp only [ActionsHandle.currentTime, handle, Recording.provider_of_none hn, Option.map_none]
  | some n =>
    simp only [ActionsHandle.currentTime, handle, Recording.provider_of_some hn, Option.map_some]
    rfl

/-! ## Operating -/

/-- The contexts that are not in use, as a routine sees them. -/
def shown (free : List Nat) (w : Estate κ μ) (i : Nat) : Option (Runner (Sketch κ)) := if i ∈ free then some (w.runners i) else none

end Estate

/-- A way to perform operations on contexts. It does not answer those on a context that is in use. -/
abbrev Estate.Reach (κ μ : Type) := Nat → Operation (Sketch κ) (Recording μ) → Estate κ μ → Option Operation.Answer × Estate κ μ

/-- Performs a routine while the contexts in `free` are not in use. `reach` performs an operation that it asks for. -/
def Routine.perform (free : List Nat) (reach : Estate.Reach κ μ) : Routine κ μ γ → Estate κ μ → γ × Estate κ μ
  | done answer, w => (answer, w)
  | look next, w => (next w.host (w.shown free)).perform free reach w
  | change f next, w => next.perform free reach (w.onHost f)
  | operate i op next, w =>
    let (answer, w) := reach i op w
    (next answer).perform free reach w

/-- The cast of a playbook. -/
def Playbook.cast (book : Playbook κ μ) (free : List Nat) (reach : Estate.Reach κ μ) : Cast κ (Estate κ μ) where
  act := Estate.act
  handle := Estate.handle
  callback k := (book.callback k).perform free reach
  test k := (book.test k).perform free reach

/-- The operation with its blocks staged. -/
def Operation.staged (c : Cast κ (Estate κ μ)) (op : Operation (Sketch κ) (Recording μ)) : Operation (Staged c) (Estate κ μ) :=
  op.map id Estate.onHost

/-- The runner with its roots staged. -/
def Runner.staged {σ : Type} (c : Cast κ σ) (r : Runner (Sketch κ)) : Runner (Staged c) := r

namespace Estate

/-- Performs an operation on a context, with its blocks played by a cast. -/
def visit (c : Cast κ (Estate κ μ)) (i : Nat) (op : Operation (Sketch κ) (Recording μ)) (w : Estate κ μ) : Operation.Answer × Estate κ μ :=
  let (answer, runner, v) := ((w.runners i).staged c).perform Staged.ofList (handle i).clear w (op.staged c)
  (answer, v.put i runner)

/-- The contexts of a list that are not in use while `i` is. -/
abbrev others (free : List Nat) (i : Nat) : List Nat := free.filter (· ≠ i)

/-- Performs an operation on a context, and what its callbacks and tests ask for, to a depth. -/
def within (book : Playbook κ μ) : Nat → List Nat → Reach κ μ
  | 0, _, _, _, w => (none, w)
  | depth + 1, free, i, op, w =>
    if i ∈ free then
      let (answer, w) := visit (book.cast (others free i) (within book depth (others free i))) i op w
      (some answer, w)
    else (none, w)

/-- Performs an operation on a context while the contexts in `free` are not in use. What is nested in it uses one context more at
each level, so it goes no deeper than there are contexts. -/
def operate (book : Playbook κ μ) (free : List Nat) : Reach κ μ := within book free.length free

/-- Performs operations one after another. -/
def operateAll (book : Playbook κ μ) (contexts : List Nat) (w : Estate κ μ) :
    List (Nat × Operation (Sketch κ) (Recording μ)) → List (Nat × Option Operation.Answer) × Estate κ μ
  | [] => ([], w)
  | (i, op) :: ops =>
    let (answer, w) := operate book contexts i op w
    let (answers, w) := operateAll book contexts w ops
    ((i, answer) :: answers, w)

/-- There are fewer contexts that are not in use once one more is. -/
theorem length_others_lt {free : List Nat} {i : Nat} (hi : i ∈ free) : (others free i).length < free.length :=
  List.length_filter_lt_length_iff_exists.mpr ⟨i, hi, by simp⟩

/-- Depths that suffice agree. -/
theorem within_eq_of_le (book : Playbook κ μ) {depth depth' : Nat} {free : List Nat} (h : free.length ≤ depth)
    (h' : free.length ≤ depth') : within book depth free = within book depth' free := by
  induction depth generalizing depth' free with
  | zero =>
    obtain rfl : free = [] := List.length_eq_zero_iff.mp (Nat.le_zero.mp h)
    cases depth' with
    | zero => rfl
    | succ depth' =>
      funext i op w
      simp only [within, List.not_mem_nil, if_false]
  | succ depth ih =>
    funext i op w
    by_cases hi : i ∈ free
    · have hlt := length_others_lt hi
      cases depth' with
      | zero => omega
      | succ depth' =>
        have hnested : within book depth (others free i) = within book depth' (others free i) := ih (by omega) (by omega)
        simp only [within, hnested]
    · cases depth' <;> simp only [within, if_neg hi]

/-- An operation on a context that is not in use is performed, with callbacks and tests that may reach all the others. One on any other
context is not answered and does nothing. -/
theorem operate_eq (book : Playbook κ μ) (free : List Nat) (i : Nat) (op : Operation (Sketch κ) (Recording μ)) (w : Estate κ μ) :
    operate book free i op w =
      if i ∈ free then Prod.map some id (visit (book.cast (others free i) (operate book (others free i))) i op w) else (none, w) := by
  by_cases hi : i ∈ free
  · have hlt := length_others_lt hi
    rw [if_pos hi, operate]
    cases hfree : free.length with
    | zero => omega
    | succ depth =>
      have hnested : within book depth (others free i) = operate book (others free i) := within_eq_of_le book (by omega) (Nat.le_refl _)
      rw [within, if_pos hi, hnested]
      rfl
  · rw [if_neg hi, operate]
    cases free.length with
    | zero => rfl
    | succ depth => rw [within, if_neg hi]

/-- The context of a runner of sketches, with the trees that are sketched. -/
def context (c : Cast κ (Estate κ μ)) (i : Nat) (w : Estate κ μ) : Context (Primitive (Estate κ μ)) (Estate κ μ) :=
  ⟨handle i, (w.runners i).map (Sketch.build c)⟩

/-- An operation that is staged brings the trees that are sketched. -/
theorem staged_mirrors (c : Cast κ (Estate κ μ)) (op : Operation (Sketch κ) (Recording μ)) :
    (op.staged c).Mirrors (fun d t => d.built = t) (fun f g => ∀ w v, w = v → f w = g v) (op.map (Sketch.build c) onHost) := by
  have hbrings : op.Brings (fun _ => True) fun _ => True := op.brings_of_forall (fun _ => trivial) fun _ => trivial
  have hhost : ∀ f : Recording μ → Recording μ, True → ∀ w v : Estate κ μ, w = v → w.onHost f = v.onHost f :=
    fun f _ _ _ hwv => congrArg (onHost f) hwv
  exact Operation.mirrors_map (R := fun (d : Staged c) t => d.built = t) (fun _ _ => rfl) hhost hbrings

/-- An operation on a context is answered as it is by the context whose roots are the trees that are sketched, with callbacks and tests
that may reach all contexts in `free` but this one, and leaves that context and the world as it does. -/
def PerformsAs (book : Playbook κ μ) (free : List Nat) (i : Nat) (op : Operation (Sketch κ) (Recording μ)) (w : Estate κ μ) : Prop :=
  let c := book.cast (others free i) (operate book (others free i))
  let real := (w.context c i).perform w (op.map (Sketch.build c) onHost)
  ∃ r : Runner (Sketch κ), operate book free i op w = (some real.1, real.2.2.put i r) ∧ real.2.1 = ⟨handle i, r.map (Sketch.build c)⟩

/-- Every operation on a context that is not in use is the operation of that context. -/
theorem operate_performsAs (book : Playbook κ μ) {free : List Nat} {i : Nat} (hi : i ∈ free) (op : Operation (Sketch κ) (Recording μ))
    (w : Estate κ μ) : PerformsAs book free i op w := by
  unfold PerformsAs
  intro c real
  have hrunner : Runner.Mirrors (fun (d : Staged c) t => d.built = t) ((w.runners i).staged c) (w.context c i).runner :=
    Runner.mirrors_iff_map_eq.mpr rfl
  obtain ⟨hanswer, hroots, hworld⟩ := Runner.perform_mirrored Staged.built_mirror Staged.built_ofList
    (fun _ _ hwv => congrArg (handle i).clear hwv) hrunner (staged_mirrors c op) rfl
  have hreal : real = _ := Context.perform_eq (w.context c i) w (op.map (Sketch.build c) onHost)
  rw [operate_eq, if_pos hi, hreal]
  refine ⟨_, Prod.ext (congrArg some hanswer) (congrArg (put i _) hworld), ?_⟩
  exact congrArg (Context.mk (handle i)) (Runner.mirrors_iff_map_eq.mp hroots).symm

/-! ## Estates in step -/

/-- Related estates show the same host and the same contexts in `free`, and stay related where a block fires, where the host is changed
as `C` allows, and where the runner of one of these contexts is replaced. -/
structure InStep (C : (Recording μ → Recording μ) → Prop) (free : List Nat) (W : Estate κ μ → Estate κ μ → Prop) : Prop where
  host : ∀ {w v}, W w v → w.host = v.host
  runners : ∀ {w v}, W w v → ∀ i ∈ free, w.runners i = v.runners i
  act : ∀ owner record, Responds W (act owner record) (act owner record)
  onHost : ∀ {f}, C f → ∀ w v, W w v → W (w.onHost f) (v.onHost f)
  clear : ∀ i, C (Recording.handle i).clear
  put : ∀ {i}, i ∈ free → ∀ r {w v}, W w v → W (w.put i r) (v.put i r)

variable {C : (Recording μ → Recording μ) → Prop} {free : List Nat} {W : Estate κ μ → Estate κ μ → Prop} {book : Playbook κ μ}
  {reach : Reach κ μ}

/-- Estates stay in step where one more context is in use. -/
theorem InStep.others (h : InStep C free W) (i : Nat) : InStep C (others free i) W where
  host := h.host
  runners hw j hj := h.runners hw j (List.mem_of_mem_filter hj)
  act := h.act
  onHost := h.onHost
  clear := h.clear
  put hj := h.put (List.mem_of_mem_filter hj)

/-- The same contexts are shown of estates in step. -/
theorem InStep.shown_eq (h : InStep C free W) {w v : Estate κ μ} (hw : W w v) : w.shown free = v.shown free := by
  funext i
  by_cases hi : i ∈ free
  · simp only [shown, if_pos hi, h.runners hw i hi]
  · simp only [shown, if_neg hi]

/-- A routine is answered alike in estates in step and keeps them so, if the operations that it asks for do. -/
theorem InStep.perform (h : InStep C free W) (hreach : ∀ i op, op.Makes C → Responds W (reach i op) (reach i op))
    {routine : Routine κ μ γ} (hroutine : routine.Makes C) : Responds W (routine.perform free reach) (routine.perform free reach) := by
  induction routine with
  | done answer => exact fun w v hw => ⟨rfl, hw⟩
  | look next ih =>
    intro w v hw
    rw [Routine.perform, Routine.perform, h.host hw, h.shown_eq hw]
    exact ih _ _ (hroutine _ _) w v hw
  | change f next ih => exact fun w v hw => ih hroutine.2 _ _ (h.onHost hroutine.1 w v hw)
  | operate i op next ih =>
    intro w v hw
    have hreply := hreach i op hroutine.1 w v hw
    rcases hr : reach i op w with ⟨answer, w'⟩
    rcases hr' : reach i op v with ⟨answer', v'⟩
    rw [hr, hr'] at hreply
    obtain ⟨rfl, hw'⟩ : answer = answer' ∧ W w' v' := hreply
    simp only [Routine.perform, hr, hr']
    exact ih answer (hroutine.2 answer) w' v' hw'

/-- All that the cast of a playbook lets a sketch call responds together in estates in step. -/
theorem InStep.cast (h : InStep C free W) (hbook : book.Makes C) (hreach : ∀ i op, op.Makes C → Responds W (reach i op) (reach i op)) :
    (book.cast free reach).Responds W (book.cast free reach) where
  act := h.act
  clock owner w v hw := by
    have hread := currentTime_eq owner w
    have hread' := currentTime_eq owner v
    simp only [Playbook.cast, hread, hread', h.host hw, true_and]
    exact hw
  callback k := h.perform hreach (hbook.callback k)
  test k := h.perform hreach (hbook.test k)

/-- An operation on a context is answered alike in estates in step and keeps them so, if what its blocks call does. -/
theorem InStep.visit (h : InStep C free W) {c : Cast κ (Estate κ μ)} (hc : c.Responds W c) {i : Nat} (hi : i ∈ free)
    {op : Operation (Sketch κ) (Recording μ)} (hop : op.Makes C) : Responds W (visit c i op) (visit c i op) := by
  intro w v hw
  have hstaged : (op.staged c).Mirrors Eq (fun f g => ∀ w v, W w v → W (f w) (g v)) (op.staged c) :=
    Operation.mirrors_map (fun _ _ => rfl) (fun _ => h.onHost) hop
  have hgroup : ∀ {ds es : List (Staged c)}, List.Forall₂ Eq ds es → Staged.ofList ds = Staged.ofList es := by
    intro ds es hds
    rw [List.forall₂_eq_eq_eq] at hds
    rw [hds]
  have hrunner : ((w.runners i).staged c).Mirrors Eq ((v.runners i).staged c) :=
    Runner.mirrors_eq_iff.mpr (h.runners hw i hi)
  have hclear : ∀ w v, W w v → W ((handle i).clear w) ((handle i).clear v) := h.onHost (h.clear i)
  have hperformed := Runner.perform_mirrored (Staged.mirror hc) hgroup hclear hrunner hstaged hw
  rw [Estate.visit, Estate.visit]
  rcases hp : ((w.runners i).staged c).perform Staged.ofList (handle i).clear w (op.staged c) with ⟨answer, r, w'⟩
  rcases hp' : ((v.runners i).staged c).perform Staged.ofList (handle i).clear v (op.staged c) with ⟨answer', r', v'⟩
  rw [hp, hp'] at hperformed
  obtain ⟨hanswer, hroots, hw'⟩ := hperformed
  obtain rfl : r = r' := Runner.mirrors_eq_iff.mp hroots
  exact ⟨hanswer, h.put hi r hw'⟩

/-- Every operation is answered alike in estates in step and keeps them so. -/
theorem InStep.operate (h : InStep C free W) (hbook : book.Makes C) (i : Nat) {op : Operation (Sketch κ) (Recording μ)}
    (hop : op.Makes C) : Responds W (operate book free i op) (operate book free i op) := by
  have hwithin : ∀ depth free, InStep C free W → ∀ i op, op.Makes C →
      Responds W (within book depth free i op) (within book depth free i op) := by
    intro depth
    induction depth with
    | zero => exact fun free _ i op _ w v hw => ⟨rfl, hw⟩
    | succ depth ih =>
      intro free h i op hop w v hw
      by_cases hi : i ∈ free
      · have hcast := (h.others i).cast hbook (ih (Estate.others free i) (h.others i))
        obtain ⟨hanswer, hw'⟩ := h.visit hcast hi hop w v hw
        simp only [within, if_pos hi]
        exact ⟨congrArg some hanswer, hw'⟩
      · simp only [within, if_neg hi, true_and]
        exact hw
  exact hwithin free.length free h i op hop

/-- Every series of operations is answered alike in estates in step and keeps them so. -/
theorem InStep.operateAll (h : InStep C free W) (hbook : book.Makes C) {ops : List (Nat × Operation (Sketch κ) (Recording μ))}
    (hops : ∀ x ∈ ops, x.2.Makes C) :
    Responds W (fun w => operateAll book free w ops) (fun w => operateAll book free w ops) := by
  induction ops with
  | nil => exact fun w v hw => ⟨rfl, hw⟩
  | cons x ops ih =>
    intro w v hw
    obtain ⟨hop, hrest⟩ := List.forall_mem_cons.mp hops
    obtain ⟨hanswer, hw'⟩ := h.operate hbook x.1 hop w v hw
    obtain ⟨hanswers, hw''⟩ := ih hrest _ _ hw'
    exact ⟨congrArg₂ List.cons (congrArg (Prod.mk x.1) hanswer) hanswers, hw''⟩

/-! ### What is in use is left alone -/

/-- An operation leaves the runner of every context alone that is in use. -/
theorem operate_runners (book : Playbook κ μ) (free : List Nat) (i : Nat) (op : Operation (Sketch κ) (Recording μ)) (w : Estate κ μ)
    {j : Nat} (hj : j ∉ free) : (operate book free i op w).2.runners j = w.runners j := by
  have hstep : InStep (fun _ => True) free fun v u : Estate κ μ => v = u ∧ u.runners j = w.runners j := by
    constructor
    case host => exact fun h => congrArg Estate.host h.1
    case runners => exact fun h i _ => congrArg (Estate.runners · i) h.1
    case act =>
      rintro owner record v _ ⟨rfl, hv⟩
      exact ⟨rfl, rfl, hv⟩
    case onHost =>
      rintro f - v _ ⟨rfl, hv⟩
      exact ⟨rfl, hv⟩
    case clear => exact fun _ => trivial
    case put =>
      rintro i hi r v _ ⟨rfl, hv⟩
      have hne : j ≠ i := fun hji => hj (hji ▸ hi)
      exact ⟨rfl, (put_runners_of_ne hne r v).trans hv⟩
  have hbook : book.Makes fun _ => True := ⟨fun k => (book.callback k).makes_true, fun k => (book.test k).makes_true⟩
  exact (hstep.operate hbook i (op.brings_of_forall (fun _ => trivial) fun _ => trivial) w w ⟨rfl, rfl⟩).2.2

end Estate

end BlockScript
