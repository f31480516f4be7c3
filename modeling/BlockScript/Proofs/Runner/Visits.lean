import BlockScript.Proofs.Block.Observation
import BlockScript.Runner
import Mathlib.Data.List.Induction

/-!
# The visits of a tick

A tick of a runner visits its roots from the newest to the oldest and hands the world from one visit to the next. `Visit` says all that
one visit does. `Round` says, by the roots and the world alone, which visits a tick makes: it ends early only at a root that fails, and
there is one such round (`Round.unique`). `TickAccount` says what the tick answers and leaves behind in terms of its round.
`process_account` proves the account for every runner, and shows that the tick is also what a loop over the indices of the registry does
that takes roots out of the registry it goes through.
-/

namespace BlockScript

variable {β : Type u} {σ : Type v}

/-- A visit of a root in a tick: the root as it is registered and the world that the visit finds. -/
structure Visit (β : Type u) (σ : Type v) where
  id : Nat
  block : β
  world : σ

namespace Visit

/-- The registered root that is visited. -/
def root (v : Visit β σ) : Nat × β := (v.id, v.block)

/-- A visit is told by its root and the world that it finds. -/
theorem ext_root (u : Visit β σ) {v : Visit β σ} (hroot : u.root = v.root) (hworld : u.world = v.world) : u = v := by
  obtain ⟨hid, hblock⟩ := Prod.ext_iff.mp hroot
  obtain ⟨id, b, w⟩ := u
  obtain rfl : id = v.id := hid
  obtain rfl : b = v.block := hblock
  obtain rfl : w = v.world := hworld
  rfl

variable [Block β σ] (dt : Float) (v : Visit β σ)

/-- How the run of the root ended. -/
def outcome : Outcome := (Block.run dt v.block v.world).1

/-- The root after its run. -/
def after : β := (Block.run dt v.block v.world).2.1

/-- The world after the run. -/
def reached : σ := (Block.run dt v.block v.world).2.2

/-- Whether the run ended well and the root then reads complete. The root is read once, right after such a run, so what else a
reading might do to the world can be taken as the end of the run. -/
def finished : Bool := (v.outcome dt).isOk && Block.isComplete (v.after dt) (v.reached dt)

/-- The world that the visit leaves behind: a root that finished is exited and then destroyed. -/
def left : σ := if v.finished dt then Runner.retire (v.after dt) (v.reached dt) else v.reached dt

/-- What stays registered of the root. -/
def kept : Option (Nat × β) := if v.finished dt then none else some (v.id, v.after dt)

/-- A root that fails in its visit is not finished. -/
theorem finished_of_error {e : BlockError} (h : v.outcome dt = .error e) : v.finished dt = false := by
  simp [finished, h, Except.isOk, Except.toBool]

/-- A root that does not fail in its visit is finished if it then reads complete. -/
theorem finished_of_ok (h : v.outcome dt = .ok ()) :
    v.finished dt = Block.isComplete (v.after dt) (v.reached dt) := by
  simp [finished, h, Except.isOk, Except.toBool]

/-- The calls that the root receives. -/
def calls : List (Nat × Event) :=
  (v.id, .run (v.outcome dt)) :: if v.finished dt then [(v.id, .exit), (v.id, .destroy)] else []

end Visit

variable [Block β σ]

/-- Visits that follow each other from one world to another: each finds the world that the one before left behind. -/
inductive Tour (dt : Float) : σ → List (Visit β σ) → σ → Prop where
  | nil (w : σ) : Tour dt w [] w
  | cons {v : Visit β σ} {vs : List (Visit β σ)} {w' : σ} :
      Tour dt (v.left dt) vs w' → Tour dt v.world (v :: vs) w'

/-- A tour goes on with one more root. -/
theorem Tour.concat {dt : Float} {w w' : σ} {vs : List (Visit β σ)} (h : Tour dt w vs w') (id : Nat) (b : β) :
    Tour dt w (vs ++ [⟨id, b, w'⟩]) (Visit.left dt ⟨id, b, w'⟩) := by
  induction h with
  | nil w => exact Tour.cons (v := ⟨id, b, w⟩) (Tour.nil _)
  | cons _ ih => exact Tour.cons ih

/-- Registered roots under observation, each under its id. -/
def observeRoots (roots : List (Nat × β)) : List (Nat × Observed Nat β) := roots.map fun x => (x.1, ⟨x.1, x.2⟩)

theorem observeRoots_append (xs ys : List (Nat × β)) : observeRoots (xs ++ ys) = observeRoots xs ++ observeRoots ys :=
  List.map_append

namespace Visit

/-- A visit of the root under observation. -/
def observe (v : Visit β σ) (log : List (Nat × Event)) : Visit (Observed Nat β) (Observation Nat σ) :=
  ⟨v.id, ⟨v.id, v.block⟩, ⟨v.world, log⟩⟩

/-- An observed root ends its visit as it does unobserved. -/
theorem outcome_observe (dt : Float) (v : Visit β σ) (log : List (Nat × Event)) :
    (v.observe log).outcome dt = v.outcome dt := rfl

/-- An observed root is kept where it is kept unobserved. -/
theorem kept_observe (dt : Float) (v : Visit β σ) (log : List (Nat × Event)) :
    ((v.observe log).kept dt).toList = observeRoots (v.kept dt).toList := by
  have hf : (v.observe log).finished dt = v.finished dt := rfl
  unfold kept
  rw [hf]
  cases v.finished dt <;> rfl

/-- An observed visit adds the calls of the visit to the log. -/
theorem left_observe (dt : Float) (v : Visit β σ) (log : List (Nat × Event)) :
    (v.observe log).left dt = ⟨v.left dt, log ++ v.calls dt⟩ := by
  have hf : (v.observe log).finished dt = v.finished dt := rfl
  unfold left calls
  rw [hf]
  cases v.finished dt with
  | false => rfl
  | true =>
    have hlog : log ++ [(v.id, .run (v.outcome dt)), (v.id, .exit), (v.id, .destroy)] =
      log ++ [(v.id, .run (v.outcome dt))] ++ [(v.id, .exit)] ++ [(v.id, .destroy)] := by simp
    simp only [if_true]
    rw [hlog]
    rfl

end Visit

/-- The round of a tick, told by the roots and the world that the tick finds: its visits, the newest root first, the roots it does not
come to, and the world that the visits lead to. -/
structure Round (dt : Float) (roots : List (Nat × β)) (w : σ) (visits : List (Visit β σ)) (untouched : List (Nat × β)) (w' : σ) :
    Prop where
  /-- From the newest root on, every root up to the last one visited is visited once. -/
  order : roots.reverse = visits.map Visit.root ++ untouched
  /-- The world is handed from visit to visit. -/
  world : Tour dt w visits w'
  /-- No visit follows one whose run failed. -/
  failure_last : ∀ v ∈ visits.dropLast, v.outcome dt = .ok ()
  /-- Roots are left out only after a visit whose run failed. -/
  early_end : untouched ≠ [] → ∃ v ∈ visits.getLast?, v.outcome dt ≠ .ok ()

/-- The account of a tick: the round it makes, and what the tick answers and leaves behind in terms of its visits. -/
structure TickAccount (dt : Float) (roots : List (Nat × β)) (w : σ) (visits : List (Visit β σ))
    (untouched : List (Nat × β)) (result : Outcome × List (Nat × β) × σ) : Prop
    extends Round dt roots w visits untouched result.2.2 where
  /-- The tick ends as the last visit does. -/
  answer : result.1 = (visits.getLast?.map (Visit.outcome dt)).getD (.ok ())
  /-- The registry is the old one without the roots that finished, in the same order. -/
  registry : result.2.1.reverse = visits.filterMap (Visit.kept dt) ++ untouched
  /-- The roots receive the calls of the visits and no others. -/
  calls : ∀ log, Runner.advance dt (observeRoots roots) ⟨w, log⟩ =
    (result.1, observeRoots result.2.1, ⟨result.2.2, log ++ visits.flatMap (Visit.calls dt)⟩)

/-! ## There is one round -/

/-- Visits lead from one world to one world only. -/
theorem Tour.world_eq {dt : Float} {w w₁ w₂ : σ} {visits : List (Visit β σ)} (h₁ : Tour dt w visits w₁) (h₂ : Tour dt w visits w₂) :
    w₁ = w₂ := by
  induction h₁ with
  | nil w =>
    cases h₂
    rfl
  | @cons v vs w₁ _ ih =>
    generalize v.world = w at h₂
    cases h₂ with
    | cons hrest => exact ih hrest

/-- Of two tours that go through the same roots from the same world, one goes on where the other ends. -/
theorem Tour.comparable {dt : Float} {w w₁ w₂ : σ} {visits₁ visits₂ : List (Visit β σ)} {untouched₁ untouched₂ : List (Nat × β)}
    (h₁ : Tour dt w visits₁ w₁) (h₂ : Tour dt w visits₂ w₂)
    (h : visits₁.map Visit.root ++ untouched₁ = visits₂.map Visit.root ++ untouched₂) :
    visits₁ <+: visits₂ ∨ visits₂ <+: visits₁ := by
  induction h₁ generalizing visits₂ with
  | nil w => exact .inl List.nil_prefix
  | @cons v vs w₁ _ ih =>
    generalize hworld : v.world = w at h₂
    cases h₂ with
    | nil => exact .inr List.nil_prefix
    | @cons v₂ vs₂ _ hrest =>
      obtain ⟨hroot, htail⟩ := List.cons_eq_cons.mp h
      obtain rfl : v = v₂ := v.ext_root hroot hworld
      exact (ih hrest htail).imp (List.prefix_cons_inj v).mpr (List.prefix_cons_inj v).mpr

namespace Round

variable {dt : Float} {roots : List (Nat × β)} {w w₁ w₂ : σ} {visits₁ visits₂ : List (Visit β σ)} {untouched₁ untouched₂ : List (Nat × β)}

/-- A round does not end where another one goes on. -/
theorem eq_of_initial (h₁ : Round dt roots w visits₁ untouched₁ w₁) (h₂ : Round dt roots w visits₂ untouched₂ w₂)
    (h : visits₁ <+: visits₂) : visits₁ = visits₂ := by
  obtain ⟨later, rfl⟩ := h
  cases later with
  | nil => exact (List.append_nil _).symm
  | cons v later =>
    -- The first round leaves the root of the next visit out, so its last visit failed; but in the second one a visit follows.
    have hsame := h₁.order.symm.trans h₂.order
    rw [List.map_append, List.append_assoc] at hsame
    have huntouched : untouched₁ ≠ [] := by
      rw [List.append_cancel_left hsame]
      exact List.cons_ne_nil _ _
    obtain ⟨u, hu, hfailed⟩ := h₁.early_end huntouched
    refine absurd (h₂.failure_last u ?_) hfailed
    rw [List.dropLast_append_of_ne_nil (List.cons_ne_nil v later)]
    exact List.mem_append_left _ (List.mem_of_getLast? hu)

/-- The roots and the world that a tick finds have one round. -/
theorem unique (h₁ : Round dt roots w visits₁ untouched₁ w₁) (h₂ : Round dt roots w visits₂ untouched₂ w₂) :
    visits₁ = visits₂ ∧ untouched₁ = untouched₂ ∧ w₁ = w₂ := by
  have hsame := h₁.order.symm.trans h₂.order
  obtain rfl : visits₁ = visits₂ := (h₁.world.comparable h₂.world hsame).elim (h₁.eq_of_initial h₂) fun h => (h₂.eq_of_initial h₁ h).symm
  exact ⟨rfl, List.append_cancel_left hsame, h₁.world.world_eq h₂.world⟩

end Round

namespace TickAccount

variable {dt : Float} {roots untouched : List (Nat × β)} {w : σ} {visits : List (Visit β σ)}
  {result : Outcome × List (Nat × β) × σ}

/-- A tick that failed has a last visit, and it failed. -/
theorem last_failed {e : BlockError} (h : TickAccount dt roots w visits untouched result) (he : result.1 = .error e) :
    ∃ v ∈ visits.getLast?, v.outcome dt ≠ .ok () := by
  have ha := h.answer
  rw [he] at ha
  cases hlast : visits.getLast? with
  | none => simp [hlast] at ha
  | some v =>
    refine ⟨v, rfl, ?_⟩
    rw [hlast] at ha
    simp only [Option.map_some, Option.getD_some] at ha
    rw [← ha]
    nofun

/-- A tick ends well exactly if all its visits do. -/
theorem ok_iff (h : TickAccount dt roots w visits untouched result) :
    result.1 = .ok () ↔ ∀ v ∈ visits, v.outcome dt = .ok () := by
  rw [h.answer]
  rcases List.eq_nil_or_concat visits with rfl | ⟨vs, v, rfl⟩
  · simp
  · have hvs : ∀ u ∈ vs, u.outcome dt = .ok () := by simpa using h.failure_last
    simp only [List.concat_eq_append, List.getLast?_concat, Option.map_some, Option.getD_some, List.mem_append,
      List.mem_singleton]
    constructor
    · rintro hv u (hu | rfl)
      · exact hvs u hu
      · exact hv
    · intro hall
      exact hall v (Or.inr rfl)

/-- A tick that ended well came to every root. -/
theorem untouched_eq_nil (h : TickAccount dt roots w visits untouched result) (hok : result.1 = .ok ()) :
    untouched = [] := by
  cases untouched with
  | nil => rfl
  | cons x xs =>
    obtain ⟨v, hv, hfail⟩ := h.early_end (List.cons_ne_nil x xs)
    exact absurd (h.ok_iff.mp hok v (List.mem_of_getLast? hv)) hfail

end TickAccount

namespace Runner

variable {dt : Float} {id : Nat} {b : β} {newer newer' : List (Nat × β)} {w w' : σ}

/-- A tick that has failed leaves the older roots as they are. -/
theorem advance_failed {e : BlockError} (h : advance dt newer w = (.error e, newer', w')) :
    advance dt ((id, b) :: newer) w = (.error e, (id, b) :: newer', w') := by
  simp [advance, h]

/-- Once the newer roots have been visited without failure, the next one is. -/
theorem advance_visit (v : Visit β σ) (h : advance dt newer w = (.ok (), newer', v.world)) :
    advance dt (v.root :: newer) w = (v.outcome dt, (v.kept dt).toList ++ newer', v.left dt) := by
  rcases hrun : Block.run dt v.block v.world with ⟨_ | ⟨⟩, b', w'⟩
  · have hf : v.finished dt = false := v.finished_of_error dt (congrArg Prod.fst hrun)
    simp only [Visit.root, advance, h, hrun, Visit.kept, Visit.left, hf]
    simp [Visit.outcome, Visit.after, Visit.reached, hrun]
  · have hf : v.finished dt = Block.isComplete b' w' := by
      rw [v.finished_of_ok dt (congrArg Prod.fst hrun), Visit.after, Visit.reached, hrun]
    simp only [Visit.root, advance, h, hrun, Visit.kept, Visit.left, hf]
    cases Block.isComplete b' w' <;> simp [Visit.outcome, Visit.after, Visit.reached, hrun]

/-- Every tick makes a round, and has its account. -/
theorem advance_account (dt : Float) (roots : List (Nat × β)) (w : σ) :
    ∃ visits untouched, TickAccount dt roots w visits untouched (advance dt roots w) := by
  induction roots with
  | nil =>
    exact ⟨[], [], {
      order := rfl
      world := Tour.nil w
      failure_last := nofun
      early_end := nofun
      answer := rfl
      registry := rfl
      calls := fun log => by simp [advance, observeRoots] }⟩
  | cons x newer ih =>
    obtain ⟨visits, untouched, account⟩ := ih
    rcases hadv : advance dt newer w with ⟨e | ⟨⟩, newer', w'⟩
    · -- A newer root failed: this one is left out too.
      rw [hadv] at account
      refine ⟨visits, untouched ++ [x], ?_⟩
      rw [show x = (x.1, x.2) from rfl, advance_failed hadv]
      exact {
        order := by simp [account.order]
        world := account.world
        failure_last := account.failure_last
        early_end := fun _ => account.last_failed rfl
        answer := account.answer
        registry := by
          rw [List.reverse_cons, account.registry, List.append_assoc]
        calls := fun log => advance_failed (account.calls log) }
    · -- The newer roots have all been visited: this one is visited next.
      rw [hadv] at account
      obtain rfl := account.untouched_eq_nil rfl
      let v : Visit β σ := ⟨x.1, x.2, w'⟩
      refine ⟨visits ++ [v], [], ?_⟩
      rw [show x = v.root from rfl, advance_visit v hadv]
      exact {
        order := by simp [account.order]
        world := account.world.concat x.1 x.2
        failure_last := by simpa using account.ok_iff.mp rfl
        early_end := nofun
        answer := by simp
        registry := by
          have hreg := account.registry
          simp only [List.append_nil] at hreg
          cases hk : v.kept dt <;> simp [hk, hreg]
        calls := fun log => by
          have h := advance_visit (v.observe (log ++ visits.flatMap (Visit.calls dt))) (account.calls log)
          rw [v.kept_observe, v.left_observe, v.outcome_observe] at h
          rw [List.flatMap_append, List.flatMap_singleton, ← List.append_assoc, observeRoots_append]
          exact h }

end Runner

/-- A tick makes the round that its roots and its world have. -/
theorem Round.account {dt : Float} {roots untouched : List (Nat × β)} {w w' : σ} {visits : List (Visit β σ)}
    (h : Round dt roots w visits untouched w') : TickAccount dt roots w visits untouched (Runner.advance dt roots w) := by
  obtain ⟨made, left, account⟩ := Runner.advance_account dt roots w
  obtain ⟨rfl, rfl, -⟩ := h.unique account.toRound
  exact account

namespace Runner

variable {dt : Float} {w w' : σ}

/-! ## The tick as a loop over indices -/

/-- Goes down the indices below a bound and visits the root at each, changing the registry in place: a root that finishes is taken
out by its index, and a failure ends the loop. -/
def sweep (dt : Float) : Nat → List (Nat × β) → σ → Outcome × List (Nat × β) × σ
  | 0, roots, w => (.ok (), roots, w)
  | i + 1, roots, w =>
    match roots[i]? with
    | none => sweep dt i roots w
    | some (id, b) =>
      match Block.run dt b w with
      | (.error e, b, w) => (.error e, roots.set i (id, b), w)
      | (.ok (), b, w) =>
        if Block.isComplete b w then sweep dt i (roots.eraseIdx i) (retire b w)
        else sweep dt i (roots.set i (id, b)) w

/-- The newest of some roots is visited before the others, which a failure leaves as they are. -/
theorem advance_concat (dt : Float) (older : List (Nat × β)) (x : Nat × β) (w : σ) :
    advance dt (older ++ [x]) w = match advance dt [x] w with
      | (.error e, kept, w') => (.error e, older ++ kept, w')
      | (.ok (), kept, w') =>
        ((advance dt older w').1, (advance dt older w').2.1 ++ kept, (advance dt older w').2.2) := by
  induction older with
  | nil =>
    rw [List.nil_append]
    rcases advance dt [x] w with ⟨e | ⟨⟩, kept, w'⟩ <;> rfl
  | cons y older ih =>
    rw [List.cons_append]
    rcases hx : advance dt [x] w with ⟨e | ⟨⟩, kept, w'⟩
    · rw [hx] at ih
      exact advance_failed ih
    · simp only [hx] at ih ⊢
      rcases hold : advance dt older w' with ⟨e | ⟨⟩, older', w''⟩
      · rw [hold] at ih
        have hy : advance dt (y :: older) w' = (.error e, y :: older', w'') := advance_failed hold
        rw [hy]
        exact advance_failed ih
      · rw [hold] at ih
        let v : Visit β σ := ⟨y.1, y.2, w''⟩
        have hy : advance dt (y :: older) w' = (v.outcome dt, (v.kept dt).toList ++ older', v.left dt) :=
          advance_visit v hold
        rw [hy, List.append_assoc]
        exact advance_visit v ih

/-- Going down the indices of the older roots does what visiting them does, and nothing to the newer ones. -/
theorem sweep_append (dt : Float) (older newer : List (Nat × β)) (w : σ) :
    sweep dt older.length (older ++ newer) w =
      ((advance dt older w).1, (advance dt older w).2.1 ++ newer, (advance dt older w).2.2) := by
  induction older using List.reverseRecOn generalizing newer w with
  | nil => simp [sweep, advance]
  | append_singleton older x ih =>
    obtain ⟨id, b⟩ := x
    have hget : (older ++ [(id, b)] ++ newer)[older.length]? = some (id, b) := by simp
    have hset : ∀ y, (older ++ [(id, b)] ++ newer).set older.length y = older ++ y :: newer := by simp
    have herase : (older ++ [(id, b)] ++ newer).eraseIdx older.length = older ++ newer := by
      simp [List.eraseIdx_append_of_length_le]
    rw [advance_concat, List.length_append, List.length_singleton, sweep, hget]
    simp only [advance, hset, herase]
    rcases Block.run dt b w with ⟨e | ⟨⟩, b', w'⟩
    · simp
    · cases hc : Block.isComplete b' w' with
      | true => simp [hc, ih newer]
      | false => simp [hc, ih ((id, b') :: newer)]

/-- A tick of a runner, as a loop and as a series of visits. The tick is what a loop down the indices of the registry does that
takes out the roots that finish as it goes. And it is a series of visits: from the newest root to the oldest, each is run once, in
the world that the visits before left behind; a root whose run ended well and that is then complete is exited, destroyed and taken
out; the first failure is the answer of the tick, its root stays registered, and no older root is touched. The tick ends well
exactly if no visit failed. -/
theorem process_account (r : Runner β) (dt : Float) (w : σ) :
    r.process dt w = ((sweep dt r.roots.length r.roots w).1,
      { r with roots := (sweep dt r.roots.length r.roots w).2.1 }, (sweep dt r.roots.length r.roots w).2.2) ∧
    ∃ visits untouched, TickAccount dt r.roots w visits untouched
        ((r.process dt w).1, (r.process dt w).2.1.roots, (r.process dt w).2.2) ∧
      (r.process dt w).2.1.nextId = r.nextId ∧
      ((r.process dt w).1 = .ok () ↔ ∀ v ∈ visits, v.outcome dt = .ok ()) := by
  constructor
  · have hsweep := sweep_append dt r.roots [] w
    simp only [List.append_nil] at hsweep
    rw [hsweep, process]
  · obtain ⟨visits, untouched, account⟩ := advance_account dt r.roots w
    exact ⟨visits, untouched, account, rfl, account.ok_iff⟩

end Runner

end BlockScript
