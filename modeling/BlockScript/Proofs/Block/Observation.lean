import BlockScript.Proofs.Block.Children

/-!
# Observed blocks

A block that writes every call it receives to a log, under a key of its own, and is otherwise the block it holds. Observing a
tree gives each of its leaves the path that leads to it as key, so the log of an observed tree is the list of all calls its
leaves received, and no two leaves share a key (`nodup_places`). The log stands beside the world: neither the blocks nor the
tests of the loops can read it.
-/

namespace BlockScript

/-- A call on a block and, where the call can fail, how it ended. -/
inductive Event where
  | create
  | destroy
  | enter (outcome : Outcome)
  | run (outcome : Outcome)
  | exit

/-- How a call ended. Calls that cannot fail ended well. -/
def Event.outcome : Event → Outcome
  | enter r => r
  | run r => r
  | _ => .ok ()

/-- A world and the calls made so far, each under the key of the block that received it. -/
structure Observation (κ : Type w) (σ : Type v) where
  world : σ
  log : List (κ × Event)

/-- A block under observation. -/
structure Observed (κ : Type w) (β : Type u) where
  key : κ
  block : β

section

variable {κ : Type w} {β : Type u} {σ : Type v} [Block β σ]

/-- The observation after a call on a block that left the world as given. -/
def Observed.note (b : Observed κ β) (o : Observation κ σ) (event : Event) (world : σ) : Observation κ σ :=
  ⟨world, o.log ++ [(b.key, event)]⟩

instance : Block (Observed κ β) (Observation κ σ) where
  create b o := let (block, w) := Block.create b.block o.world; ({ b with block }, b.note o .create w)
  destroy b o := let (block, w) := Block.destroy b.block o.world; ({ b with block }, b.note o .destroy w)
  enter b o := let (r, block, w) := Block.enter b.block o.world; (r, { b with block }, b.note o (.enter r) w)
  run dt b o := let (r, block, w) := Block.run dt b.block o.world; (r, { b with block }, b.note o (.run r) w)
  exit b o := let (block, w) := Block.exit b.block o.world; ({ b with block }, b.note o .exit w)
  isComplete b o := Block.isComplete b.block o.world
  kind b := Block.kind b.block

end

/-- Lets a test that reads the world read the world of an observation. -/
def LoopKind.observeTest {κ : Type w} {σ : Type v} (test : σ → Bool × σ) (o : Observation κ σ) : Bool × Observation κ σ :=
  ((test o.world).1, { o with world := (test o.world).2 })

/-- The loop kind over observations. -/
def LoopKind.observe {κ : Type w} {σ : Type v} : LoopKind σ → LoopKind (Observation κ σ)
  | forever => forever
  | whileTrue test => whileTrue (observeTest test)
  | untilTrue test => untilTrue (observeTest test)

/-- Asking an observed loop whether to stop asks the loop and leaves the log as it is. -/
theorem LoopKind.shouldExit_observe {κ : Type w} {σ : Type v} (k : LoopKind σ) (s : σ) (log : List (κ × Event)) :
    k.observe.shouldExit ⟨s, log⟩ = ((k.shouldExit s).1, ⟨(k.shouldExit s).2, log⟩) := by
  cases k <;> rfl

/-- The indices of the children that lead from the root of a tree to one of its leaves. -/
abbrev Place := List Nat

namespace Tree

variable {α : Type u} {σ : Type v}

mutual

/-- The tree with each leaf observed under its place; the tree itself is found at the given place. -/
def observe (p : Place) : Tree α σ → Tree (Observed Place α) (Observation Place σ)
  | leaf b => leaf ⟨p, b⟩
  | sequence cs i e => sequence (observeFrom p 0 cs) i e
  | loop k cs i s e => loop k.observe (observeFrom p 0 cs) i s e
termination_by structural t => t

/-- The last children of the composite at a place, from the child of an index on. -/
def observeFrom (p : Place) (first : Nat) : List (Tree α σ) → List (Tree (Observed Place α) (Observation Place σ))
  | [] => []
  | c :: cs => observe (p ++ [first]) c :: observeFrom p (first + 1) cs
termination_by structural cs => cs

end

theorem getElem?_observeFrom (p : Place) (first : Nat) (cs : List (Tree α σ)) (i : Nat) :
    (observeFrom p first cs)[i]? = cs[i]?.map (observe (p ++ [first + i])) := by
  induction cs generalizing first i with
  | nil => simp [observeFrom]
  | cons c cs ih =>
    cases i with
    | zero => simp [observeFrom]
    | succ i => simp [observeFrom, ih, Nat.add_right_comm, Nat.add_assoc]

/-- The child at an index is observed under the place of its parent followed by the index. -/
theorem getElem?_observe (p : Place) (cs : List (Tree α σ)) (i : Nat) :
    (observeFrom p 0 cs)[i]? = cs[i]?.map (observe (p ++ [i])) := by
  rw [getElem?_observeFrom, Nat.zero_add]

@[simp] theorem length_observeFrom (p : Place) (first : Nat) (cs : List (Tree α σ)) :
    (observeFrom p first cs).length = cs.length := by
  induction cs generalizing first with
  | nil => rfl
  | cons c cs ih => simp [observeFrom, ih]

@[simp] theorem isEmpty_observeFrom (p : Place) (first : Nat) (cs : List (Tree α σ)) :
    (observeFrom p first cs).isEmpty = cs.isEmpty := by
  cases cs <;> rfl

/-- Replacing a child and observing commute. -/
theorem observe_set (p : Place) (cs : List (Tree α σ)) (i : Nat) (c : Tree α σ) :
    (observeFrom p 0 cs).set i (observe (p ++ [i]) c) = observeFrom p 0 (cs.set i c) := by
  apply List.ext_getElem?
  intro j
  rw [List.getElem?_set, getElem?_observe, getElem?_observe, List.getElem?_set, length_observeFrom]
  by_cases hij : i = j
  · subst hij
    by_cases hi : i < cs.length <;> simp [hi]
  · simp [hij]

/-! ## Places -/

mutual

/-- The leaves of a tree, from left to right. -/
def leaves : Tree α σ → List α
  | leaf b => [b]
  | sequence cs _ _ => leavesOf cs
  | loop _ cs _ _ _ => leavesOf cs
termination_by structural t => t

/-- The leaves of some trees, from left to right. -/
def leavesOf : List (Tree α σ) → List α
  | [] => []
  | c :: cs => leaves c ++ leavesOf cs
termination_by structural cs => cs

end

/-- The places under which the leaves of an observed tree are observed, from left to right. -/
def places (p : Place) (t : Tree α σ) : List Place := (t.observe p).leaves.map (·.key)

/-- The places of the leaves below the last children of a composite. -/
def placesFrom (p : Place) (first : Nat) (cs : List (Tree α σ)) : List Place :=
  (leavesOf (observeFrom p first cs)).map (·.key)

theorem placesFrom_cons (p : Place) (first : Nat) (c : Tree α σ) (cs : List (Tree α σ)) :
    placesFrom p first (c :: cs) = places (p ++ [first]) c ++ placesFrom p (first + 1) cs := by
  simp [placesFrom, places, observeFrom, leavesOf]

/-- A place among the last children leads through one of them. -/
theorem prefix_of_mem_placesFrom {p q : Place} {cs : List (Tree α σ)} (h : ∀ c ∈ cs, ∀ p, ∀ q ∈ places p c, p <+: q)
    (first : Nat) (hq : q ∈ placesFrom p first cs) :
    ∃ i, first ≤ i ∧ p ++ [i] <+: q := by
  induction cs generalizing first with
  | nil => simp [placesFrom, observeFrom, leavesOf] at hq
  | cons c cs ih =>
    rw [placesFrom_cons, List.mem_append] at hq
    rcases hq with hq | hq
    · exact ⟨first, Nat.le_refl _, h c (by simp) _ q hq⟩
    · obtain ⟨i, hi, hq⟩ := ih (fun d hd => h d (by simp [hd])) (first + 1) hq
      exact ⟨i, by omega, hq⟩

/-- Every leaf of a tree is observed under a place that extends the tree's. -/
theorem prefix_of_mem_places (t : Tree α σ) : ∀ p, ∀ q ∈ places p t, p <+: q := by
  induction t with
  | leaf b =>
    intro p q hq
    simp only [places, observe, leaves, List.map_cons, List.map_nil, List.mem_singleton] at hq
    exact hq ▸ List.prefix_refl p
  | sequence cs i e ih =>
    intro p q hq
    obtain ⟨j, -, hj⟩ := prefix_of_mem_placesFrom ih 0 hq
    exact (List.prefix_append p [j]).trans hj
  | loop k cs i s e ih =>
    intro p q hq
    obtain ⟨j, -, hj⟩ := prefix_of_mem_placesFrom ih 0 hq
    exact (List.prefix_append p [j]).trans hj

/-- No place of a list of children is named twice, if none of a child is. -/
theorem nodup_placesFrom {cs : List (Tree α σ)} (h : ∀ c ∈ cs, ∀ p, (places p c).Nodup) (p : Place) (first : Nat) :
    (placesFrom p first cs).Nodup := by
  induction cs generalizing first with
  | nil => simp [placesFrom, observeFrom, leavesOf]
  | cons c cs ih =>
    rw [placesFrom_cons, List.nodup_append]
    refine ⟨h c (by simp) _, ih (fun d hd => h d (by simp [hd])) _, ?_⟩
    rintro q hq _ hq' rfl
    obtain ⟨i, hi, hpre⟩ := prefix_of_mem_placesFrom (fun d _ => prefix_of_mem_places d) (first + 1) hq'
    have heq : p ++ [first] = p ++ [i] :=
      (List.prefix_of_prefix_length_le (prefix_of_mem_places c _ q hq) hpre (by simp)).eq_of_length (by simp)
    simp at heq
    omega

/-- No two leaves of a tree are observed under the same place. -/
theorem nodup_places (t : Tree α σ) : ∀ p, (places p t).Nodup := by
  induction t with
  | leaf b =>
    intro p
    simp [places, observe, leaves]
  | sequence cs i e ih =>
    intro p
    exact nodup_placesFrom ih p 0
  | loop k cs i s e ih =>
    intro p
    exact nodup_placesFrom ih p 0

end Tree

end BlockScript
