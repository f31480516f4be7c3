import BlockScript.Block.Primitive
import BlockScript.Proofs.Block.LeafCalls
import Mathlib.Data.List.Chain

/-!
# The life of the leaves of a tree

`OwnerHistory` is every way to drive a tree that keeps the block contract. Whatever its leaves and tests do and whatever happens
between two calls, one tick is one step of one leaf (`one_leaf_step`), and over a whole history the leaves are entered, run and
exited in good order, one at a time, with none left entered behind the owner's back (`leaves_disciplined`).
-/

namespace BlockScript

/-! ## Owner histories -/

/-- What an owner that keeps the contract can make of an observed tree: the tree as it then is, the calls its leaves received so
far, and whether the tree is entered and not exited. A tree whose entry failed may be entered again. Before every call the world
may have become any other. -/
inductive OwnerHistory {α : Type u} {σ : Type v} [Block α σ] (t : Tree α σ) :
    Tree (Observed Place α) (Observation Place σ) → List (Place × Event) → Bool → Prop where
  | fresh : OwnerHistory t (t.observe []) [] false
  | enter {u : Tree (Observed Place α) (Observation Place σ)} {log : List (Place × Event)} (w : σ) :
      OwnerHistory t u log false →
      OwnerHistory t (u.enter ⟨w, log⟩).2.1 (u.enter ⟨w, log⟩).2.2.log (u.enter ⟨w, log⟩).1.isOk
  | run {u : Tree (Observed Place α) (Observation Place σ)} {log : List (Place × Event)} (dt : Float) (w : σ) :
      OwnerHistory t u log true →
      OwnerHistory t (u.run dt ⟨w, log⟩).2.1 (u.run dt ⟨w, log⟩).2.2.log true
  | exit {u : Tree (Observed Place α) (Observation Place σ)} {log : List (Place × Event)} (w : σ) :
      OwnerHistory t u log true → OwnerHistory t (u.exit ⟨w, log⟩).1 (u.exit ⟨w, log⟩).2.log false

/-! ## Trails -/

section

variable {κ : Type w}

/-- How one call moves the leaf that is open. -/
inductive Move : Option κ → κ × Event → Option κ → Prop where
  | entered (k : κ) : Move none (k, .enter (.ok ())) (some k)
  | refused (k : κ) (e : BlockError) : Move none (k, .enter (.error e)) none
  | ran (k : κ) (r : Outcome) : Move (some k) (k, .run r) (some k)
  | left (k : κ) : Move (some k) (k, .exit) none

/-- A log in which every call moves the open leaf, from none at first to the one given. -/
inductive Trail : List (κ × Event) → Option κ → Prop where
  | nil : Trail [] none
  | snoc {log : List (κ × Event)} {o o' : Option κ} {x : κ × Event} : Trail log o → Move o x o' → Trail (log ++ [x]) o'

namespace Trail

variable {log log' es : List (κ × Event)} {o o' : Option κ} {r : Outcome}

/-- A trail goes on with what may happen while a leaf is open. -/
theorem held (h : Trail log o) (hes : Held o es r o') : Trail (log ++ es) o' := by
  cases hes with
  | idle => rwa [List.append_nil]
  | ran k r => exact h.snoc (Move.ran k r)
  | left k => exact h.snoc (Move.left k)
  | finished k =>
    rw [List.append_cons]
    exact (h.snoc (Move.ran k _)).snoc (Move.left k)

/-- A trail with no open leaf goes on with an entry. -/
theorem entry (h : Trail log none) (hes : Entry es r o') : Trail (log ++ es) o' := by
  cases hes with
  | silent => rwa [List.append_nil]
  | entered k => exact h.snoc (Move.entered k)
  | refused k e => exact h.snoc (Move.refused k e)

/-- A trail goes on with what a tick may have. -/
theorem tick (h : Trail log o) (hes : Tick o es r o') : Trail (log ++ es) o' := by
  cases hes with
  | held hes => exact h.held hes
  | entering hes hes' =>
    rw [← List.append_assoc]
    exact (h.held hes).entry hes'

theorem exit (h : Trail log o) : Trail (log ++ exitCalls o) none := by
  cases o with
  | none => rwa [exitCalls, List.append_nil]
  | some k => exact h.snoc (Move.left k)

/-- The last call of a trail moves the leaf that was open before it. -/
theorem last {x : κ × Event} (h : Trail (log ++ [x]) o') : ∃ o, Trail log o ∧ Move o x o' := by
  generalize hlog : log ++ [x] = full at h
  cases h with
  | nil => simp at hlog
  | snoc h hm =>
    obtain ⟨rfl, hx⟩ := List.append_inj' hlog rfl
    cases hx
    exact ⟨_, h, hm⟩

/-- What came before a moment of a trail is a trail. -/
theorem before (h : Trail (log ++ log') o) : ∃ o', Trail log o' := by
  induction log' using List.reverseRecOn generalizing o with
  | nil => exact ⟨o, by rwa [List.append_nil] at h⟩
  | append_singleton log' x ih =>
    rw [← List.append_assoc] at h
    obtain ⟨o', h, -⟩ := h.last
    exact ih h

end Trail

/-! ## Discipline -/

/-- Whether a call opens or closes the block that received it; a call that does neither has no mark. -/
def Event.mark : Event → Option Bool
  | enter (.ok ()) => some true
  | exit => some false
  | _ => none

variable [DecidableEq κ]

/-- The successful entries of a leaf and its exits, in order. -/
def marks (k : κ) (log : List (κ × Event)) : List Bool := (log.filter (·.1 = k)).filterMap (·.2.mark)

/-- A leaf is open after a log that holds an entry of it and no later exit. -/
def IsOpen (k : κ) (log : List (κ × Event)) : Prop := (marks k log).getLast? = some true

/-- The calls on the leaves of a tree, each under its place, are in good order. -/
structure LeafDiscipline (log : List (κ × Event)) : Prop where
  /-- The successful entries and the exits of a leaf alternate. -/
  alternating : ∀ k, (marks k log).IsChain (· ≠ ·)
  /-- The first of them is an entry. -/
  entry_first : ∀ k, (marks k log).head? ≠ some false
  /-- A leaf is run only while it is open. -/
  run_open : ∀ before after k r, log = before ++ (k, .run r) :: after → IsOpen k before
  /-- At no moment are two leaves open. -/
  one_open : ∀ before after, log = before ++ after → ∀ j k, IsOpen j before → IsOpen k before → j = k

theorem marks_append (k : κ) (log log' : List (κ × Event)) : marks k (log ++ log') = marks k log ++ marks k log' := by
  simp [marks]

theorem marks_singleton (k j : κ) (e : Event) : marks k [(j, e)] = if j = k then e.mark.toList else [] := by
  by_cases h : j = k <;> cases hm : e.mark <;> simp [marks, h, hm]

/-- A trail ends with exactly the open leaf open. -/
theorem Trail.isOpen_iff {log : List (κ × Event)} {o : Option κ} (h : Trail log o) (k : κ) : IsOpen k log ↔ o = some k := by
  induction h with
  | nil => simp [IsOpen, marks]
  | snoc h hm ih =>
    unfold IsOpen at ih ⊢
    rw [marks_append]
    cases hm with
    | entered j =>
      rw [marks_singleton]
      by_cases hj : j = k <;> simp [hj, ih, Event.mark]
    | refused j e => simpa [marks_singleton, Event.mark] using ih
    | ran j r => simpa [marks_singleton, Event.mark] using ih
    | left j =>
      rw [marks_singleton]
      by_cases hj : j = k <;> simp [hj, ih, Event.mark]

/-- A list that alternates from `true` goes on to alternate with a value that is not its last. -/
theorem alternating_concat {l : List Bool} {b : Bool} (hl : l.IsChain (· ≠ ·) ∧ l.head? ≠ some false)
    (hlast : l.getLast? ≠ some b) (hnil : l = [] → b = true) :
    (l ++ [b]).IsChain (· ≠ ·) ∧ (l ++ [b]).head? ≠ some false := by
  refine ⟨List.isChain_append.mpr ⟨hl.1, List.isChain_singleton b, ?_⟩, ?_⟩
  · intro x hx y hy hxy
    cases hy
    subst hxy
    exact hlast hx
  · cases l with
    | nil => simp [hnil rfl]
    | cons x l => exact hl.2

/-- Along a trail a leaf is entered only while it is closed and exited only while it is open. -/
theorem Trail.alternating {log : List (κ × Event)} {o : Option κ} (h : Trail log o) (k : κ) :
    (marks k log).IsChain (· ≠ ·) ∧ (marks k log).head? ≠ some false := by
  induction h with
  | nil => simp [marks]
  | snoc h hm ih =>
    have hopen := h.isOpen_iff k
    unfold IsOpen at hopen
    rw [marks_append]
    cases hm with
    | entered j =>
      rw [marks_singleton]
      split
      · exact alternating_concat ih (by simp [hopen]) (fun _ => rfl)
      · simpa using ih
    | refused j e => simpa [marks_singleton, Event.mark] using ih
    | ran j r => simpa [marks_singleton, Event.mark] using ih
    | left j =>
      rw [marks_singleton]
      split
      · rename_i hj
        subst hj
        have hlast := hopen.mpr rfl
        exact alternating_concat ih (by simp [hlast]) (fun hnil => by simp [hnil] at hlast)
      · simpa using ih

/-- The calls of a trail are in good order. -/
theorem Trail.discipline {log : List (κ × Event)} {o : Option κ} (h : Trail log o) : LeafDiscipline log where
  alternating k := (h.alternating k).1
  entry_first k := (h.alternating k).2
  run_open := by
    rintro before after k r rfl
    rw [List.append_cons] at h
    obtain ⟨_, huntil⟩ := h.before
    obtain ⟨o', hbefore, hm⟩ := huntil.last
    cases hm
    exact (hbefore.isOpen_iff k).mpr rfl
  one_open := by
    rintro before after rfl j k hj hk
    obtain ⟨o', h⟩ := h.before
    rw [h.isOpen_iff] at hj hk
    exact Option.some.inj (hj.symm.trans hk)

end

/-! ## Histories -/

section

variable {α : Type u} {σ : Type v} [Block α σ] {t : Tree α σ} {u : Tree (Observed Place α) (Observation Place σ)}
  {log : List (Place × Event)} {active : Bool}

/-- Along a history the tree stays an observed tree, and the log is a trail that ends with the leaf open that the cursors of
the tree lead to, or with none while the tree is not entered. -/
theorem OwnerHistory.trail (h : OwnerHistory t u log active) :
    ∃ t' : Tree α σ, u = t'.observe [] ∧ Trail log (if active then t'.openLeaf [] else none) := by
  induction h with
  | fresh => exact ⟨t, rfl, Trail.nil⟩
  | @enter _ log w _ ih =>
    obtain ⟨t', rfl, htrail⟩ := ih
    obtain ⟨es, heq, hes⟩ := t'.enter_observe [] w log
    rw [heq]
    exact ⟨_, rfl, htrail.entry hes⟩
  | @run _ log dt w _ ih =>
    obtain ⟨t', rfl, htrail⟩ := ih
    obtain ⟨es, heq, hes, -⟩ := t'.run_observe dt [] w log
    rw [heq]
    exact ⟨_, rfl, htrail.tick hes⟩
  | @exit _ log w _ ih =>
    obtain ⟨t', rfl, htrail⟩ := ih
    rw [t'.exit_observe [] w log]
    exact ⟨_, rfl, htrail.exit⟩

/-- Lifecycle discipline. Under an owner that keeps the contract, whatever the leaves and the tests do, the entries and exits of
each leaf alternate, a leaf is run only while it is open, one leaf is open at most at any moment, and none is open while the
tree is not entered: after an exit and after an entry that failed. The calls are told apart by the places of the leaves, which
differ. -/
theorem leaves_disciplined (h : OwnerHistory t u log active) :
    (t.places []).Nodup ∧ LeafDiscipline log ∧ (active = false → ∀ k, ¬IsOpen k log) := by
  obtain ⟨t', -, htrail⟩ := h.trail
  refine ⟨t.nodup_places [], htrail.discipline, ?_⟩
  rintro rfl k hk
  simpa using (htrail.isOpen_iff k).mp hk

/-- The slot of a world that is either full or empty; its clock stands still. -/
def lampSlot : ActionsHandle Bool where
  provider? w := if w then some ⟨fun _ => id, fun _ _ => id, fun _ _ => id, fun w => (0.0, w)⟩ else none
  clear _ := false

/-- A callback, and after it a wait over and over. -/
def lampTree : Tree (Primitive Bool) Bool :=
  .ofList [.leaf (.perform id), .repeating .forever [.leaf (.waitFor lampSlot 1.0)]]

/-- In the tick that finishes the callback the slot is empty and the wait cannot be entered; it is entered in the next one, and
the owner then gives up. -/
def lampLog : List (Place × Event) :=
  [([0], .enter (.ok ())), ([0], .run (.ok ())), ([0], .exit), ([1, 0], .enter (.error .actionsNotInitialized)),
    ([1, 0], .enter (.ok ())), ([1, 0], .exit)]

/-- A history in which an entry fails and is made up for in the next tick. -/
theorem leaves_disciplined_lamp : ∃ u, OwnerHistory lampTree u lampLog false ∧ (lampTree.places []).Nodup ∧
    LeafDiscipline lampLog ∧ ∀ k, ¬IsOpen k lampLog := by
  have entered := OwnerHistory.enter true (OwnerHistory.fresh (t := lampTree))
  have failed := OwnerHistory.run 1.0 false entered
  have retried := OwnerHistory.run 1.0 true failed
  have left := OwnerHistory.exit true retried
  obtain ⟨hplaces, hgood, hclosed⟩ := leaves_disciplined left
  exact ⟨_, left, hplaces, hgood, hclosed rfl⟩

/-! ## One leaf step per tick -/

/-- The calls of one call on the root, in three parts: the leaf that is run, the leaf that is exited, and the leaf that an attempt
is made to enter. -/
structure LeafStep {κ : Type w} (es : List (κ × Event)) (ran : Option (κ × Outcome)) (left : Option κ)
    (tried : Option (κ × Outcome)) : Prop where
  calls : es = (ran.map fun x => (x.1, .run x.2)).toList ++ (left.map fun k => (k, .exit)).toList ++
    (tried.map fun x => (x.1, .enter x.2)).toList
  /-- Only the leaf that is run is exited. -/
  same_leaf : ∀ x ∈ ran, ∀ k ∈ left, k = x.1
  /-- Nothing follows a run that failed. -/
  failure_last : ∀ x ∈ ran, x.2 ≠ .ok () → left = none ∧ tried = none

/-- How the last of some calls ended; no call ends well. -/
def lastOutcome {κ : Type w} (es : List (κ × Event)) : Outcome :=
  match es.getLast? with
  | none => .ok ()
  | some (_, e) => e.outcome

section

variable {κ : Type w} {o o' : Option κ} {es : List (κ × Event)} {r : Outcome}

/-- What happens while a leaf is open is at most one run of it and one exit, and the leaf that ran decides how it ends. -/
theorem Held.leafStep (h : Held o es r o') :
    ∃ ran left, LeafStep es ran left none ∧ (∀ x ∈ ran, x.2 = r) ∧ r = lastOutcome es := by
  cases h with
  | idle => exact ⟨none, none, ⟨rfl, nofun, nofun⟩, nofun, rfl⟩
  | ran k r =>
    refine ⟨some (k, r), none, ⟨rfl, nofun, fun _ _ _ => ⟨rfl, rfl⟩⟩, ?_, rfl⟩
    rintro _ ⟨⟩
    rfl
  | left k => exact ⟨none, some k, ⟨rfl, nofun, nofun⟩, nofun, rfl⟩
  | finished k =>
    refine ⟨some (k, .ok ()), some k, ⟨rfl, ?_, ?_⟩, ?_, rfl⟩
    · rintro _ ⟨⟩ _ ⟨⟩
      rfl
    · rintro _ ⟨⟩ hne
      exact absurd rfl hne
    · rintro _ ⟨⟩
      rfl

/-- An entry tries at most one leaf, and that leaf decides how it ends. -/
theorem Entry.attempt (h : Entry es r o) :
    ∃ tried : Option (κ × Outcome), es = (tried.map fun x => (x.1, .enter x.2)).toList ∧ r = lastOutcome es := by
  cases h with
  | silent => exact ⟨none, rfl, rfl⟩
  | entered k => exact ⟨some (k, .ok ()), rfl, rfl⟩
  | refused k e => exact ⟨some (k, .error e), rfl, rfl⟩

/-- The calls of a tick are one step of one leaf, and the tick ends as the last of them does. -/
theorem Tick.leafStep (h : Tick o es r o') : ∃ ran left tried, LeafStep es ran left tried ∧ r = lastOutcome es := by
  cases h with
  | held h =>
    obtain ⟨ran, left, hstep, -, hr⟩ := h.leafStep
    exact ⟨ran, left, none, hstep, hr⟩
  | @entering _ es es' r h h' =>
    obtain ⟨ran, left, hstep, hran, hok⟩ := h.leafStep
    obtain ⟨tried, htried, hr⟩ := h'.attempt
    refine ⟨ran, left, tried, ⟨?_, hstep.same_leaf, fun x hx hne => absurd (hran x hx) hne⟩, ?_⟩
    · rw [hstep.calls, htried]
      simp
    · cases tried with
      | none =>
        obtain rfl : r = .ok () := by rw [hr, htried]; rfl
        simpa [htried] using hok
      | some x =>
        rw [htried] at hr ⊢
        simpa [lastOutcome] using hr

end

/-- One leaf step per tick. In every state that a history leads to, a tick of the root runs one leaf at most, then exits one leaf
at most, which is the one it ran if it ran one, then makes one attempt at most to enter a leaf; nothing follows a run that failed,
and the tick ends as the last of these calls. Entering the root makes one attempt at most to enter a leaf, and no other call. -/
theorem one_leaf_step (h : OwnerHistory t u log active) (w : σ) :
    (active = true → ∀ dt, ∃ es ran left tried, (u.run dt ⟨w, log⟩).2.2.log = log ++ es ∧
      LeafStep es ran left tried ∧ (u.run dt ⟨w, log⟩).1 = lastOutcome es) ∧
    ∃ tried : Option (Place × Outcome),
      (u.enter ⟨w, log⟩).2.2.log = log ++ (tried.map fun x => (x.1, .enter x.2)).toList := by
  obtain ⟨t', rfl, -⟩ := h.trail
  constructor
  · intro _ dt
    obtain ⟨es, heq, hes, -⟩ := t'.run_observe dt [] w log
    obtain ⟨ran, left, tried, hstep, hr⟩ := hes.leafStep
    rw [heq]
    exact ⟨es, ran, left, tried, rfl, hstep, hr⟩
  · obtain ⟨es, heq, hes⟩ := t'.enter_observe [] w log
    obtain ⟨tried, rfl, -⟩ := hes.attempt
    rw [heq]
    exact ⟨tried, rfl⟩

/-- One run of the lamp's tree, in the state that entering it leaves. -/
theorem one_leaf_step_lamp : ∃ u, OwnerHistory lampTree u (lampLog.take 1) true ∧
    ∃ es ran left tried, (u.run 1.0 ⟨false, lampLog.take 1⟩).2.2.log = lampLog.take 1 ++ es ∧
      LeafStep es ran left tried ∧ (u.run 1.0 ⟨false, lampLog.take 1⟩).1 = lastOutcome es := by
  have entered := OwnerHistory.enter true (OwnerHistory.fresh (t := lampTree))
  exact ⟨_, entered, (one_leaf_step entered false).1 rfl 1.0⟩

end

end BlockScript
