import BlockScript.Proofs.Runner.Tenure

/-!
# Requests

A runner serves requests: blocks are added, ticks are made, roots are cancelled, and at some moment all of them may be dropped. The
blocks are observed, each under a key of its own, so that the log of a request tells which calls which of them received (`received`),
and observing them changes nothing that the runner does (`Request.serve_bare`).
-/

namespace BlockScript

/-- A request to a runner. -/
inductive Request (β : Type u) where
  | add (b : β)
  | process (dt : Float)
  | cancel (id : Nat)
  | dispose

section

variable {β : Type u} {σ : Type v} [Block β σ]

/-- The runner and the world after a request. -/
def Request.serve : Request β → Runner β → σ → Runner β × σ
  | add b, r, w => (r.add b w).2
  | process dt, r, w => (r.process dt w).2
  | cancel id, r, w => (r.cancel id w).2
  | dispose, r, w => (r.dispose, w)

/-- What comes of a block that is created and entered. -/
def opening (b : β) (w : σ) : Outcome × β × σ := Block.enter (Block.create b w).1 (Block.create b w).2

/-- A block that cannot be entered is not registered. -/
theorem Runner.add_of_error {b : β} {w : σ} {e : BlockError} (h : (opening b w).1 = .error e) (r : Runner β) :
    r.add b w = (.error e, r, (opening b w).2.2) := by
  rcases hopening : opening b w with ⟨e' | ⟨⟩, b', w'⟩
  · obtain rfl : e' = e := by simpa [hopening] using h
    rw [opening] at hopening
    simp only [add, hopening]
  · simp [hopening] at h

/-- A block that was entered is registered as it then is. -/
theorem Runner.add_of_ok {b : β} {w : σ} (h : (opening b w).1 = .ok ()) (r : Runner β) :
    r.add b w = (.ok r.nextId, ⟨r.roots ++ [(r.nextId, (opening b w).2.1)], r.nextId + 1⟩, (opening b w).2.2) := by
  rcases hopening : opening b w with ⟨e | ⟨⟩, b', w'⟩
  · simp [hopening] at h
  · rw [opening] at hopening
    simp only [add, hopening]

/-- What the root receives in a visit. -/
def Visit.events (dt : Float) (v : Visit β σ) : List Event :=
  .run (v.outcome dt) :: if v.finished dt then [.exit, .destroy] else []

end

section

variable {κ : Type w} {β : Type u} {σ : Type v}

/-! ## Observing changes nothing -/

/-- Registered roots without the observation. -/
def bareRoots (roots : List (Nat × Observed κ β)) : List (Nat × β) := roots.map fun x => (x.1, x.2.block)

theorem bareRoots_append (xs ys : List (Nat × Observed κ β)) : bareRoots (xs ++ ys) = bareRoots xs ++ bareRoots ys :=
  List.map_append

/-- A runner without the observation. -/
def Runner.bare (r : Runner (Observed κ β)) : Runner β := ⟨bareRoots r.roots, r.nextId⟩

/-- A request without the observation. -/
def Request.bare : Request (Observed κ β) → Request β
  | add b => add b.block
  | process dt => process dt
  | cancel id => cancel id
  | dispose => dispose

variable [Block β σ]

/-- A visit without the observation. -/
def Visit.bare (v : Visit (Observed κ β) (Observation κ σ)) : Visit β σ := ⟨v.id, v.block.block, v.world.world⟩

/-- A bare visit leaves the world that the observed one does. -/
theorem Visit.left_bare (dt : Float) (v : Visit (Observed κ β) (Observation κ σ)) : v.bare.left dt = (v.left dt).world := by
  have hfinished : v.finished dt = v.bare.finished dt := rfl
  unfold left
  rw [hfinished]
  cases v.bare.finished dt <;> rfl

/-- A bare visit keeps the root where the observed one does. -/
theorem Visit.kept_bare (dt : Float) (v : Visit (Observed κ β) (Observation κ σ)) :
    (v.bare.kept dt).toList = bareRoots (v.kept dt).toList := by
  have hfinished : v.finished dt = v.bare.finished dt := rfl
  unfold kept
  rw [hfinished]
  cases v.bare.finished dt <;> rfl

/-- A tick of observed roots is a tick of the bare ones. -/
theorem Runner.advance_bare (dt : Float) (roots : List (Nat × Observed κ β)) (o : Observation κ σ) :
    advance dt (bareRoots roots) o.world =
      ((advance dt roots o).1, bareRoots (advance dt roots o).2.1, (advance dt roots o).2.2.world) := by
  induction roots with
  | nil => rfl
  | cons x newer ih =>
    rcases hadvance : advance dt newer o with ⟨e | ⟨⟩, newer', o'⟩
    · rw [hadvance] at ih
      have hfailed : advance dt (x :: newer) o = (.error e, x :: newer', o') := advance_failed hadvance
      rw [hfailed]
      exact advance_failed ih
    · rw [hadvance] at ih
      let v : Visit (Observed κ β) (Observation κ σ) := ⟨x.1, x.2, o'⟩
      have hvisit : advance dt (x :: newer) o = (v.outcome dt, (v.kept dt).toList ++ newer', v.left dt) := advance_visit v hadvance
      have hbare := advance_visit v.bare ih
      rw [v.left_bare, v.kept_bare] at hbare
      simp only [hvisit, bareRoots_append]
      exact hbare

/-- Cancelling an observed root cancels the bare one. -/
theorem Runner.cancel_bare (r : Runner (Observed κ β)) (id : Nat) (o : Observation κ σ) :
    r.bare.cancel id o.world = ((r.cancel id o).1, (r.cancel id o).2.1.bare, (r.cancel id o).2.2.world) := by
  have hfind : r.bare.roots.find? (·.1 == id) = (r.roots.find? (·.1 == id)).map fun x => (x.1, x.2.block) := List.find?_map
  have herase : r.bare.roots.eraseP (·.1 == id) = bareRoots (r.roots.eraseP (·.1 == id)) := List.eraseP_map
  rw [Runner.cancel, hfind, herase, Runner.cancel]
  cases r.roots.find? (·.1 == id) <;> rfl

/-- Observing changes nothing that a runner does. -/
theorem Request.serve_bare (q : Request (Observed κ β)) (r : Runner (Observed κ β)) (o : Observation κ σ) :
    q.bare.serve r.bare o.world = ((q.serve r o).1.bare, (q.serve r o).2.world) := by
  cases q with
  | add b =>
    simp only [serve, bare]
    rcases hopening : (opening b o).1 with e | ⟨⟩
    · have hbare : (opening b.block o.world).1 = .error e := hopening
      rw [Runner.add_of_error hopening, Runner.add_of_error hbare]
      rfl
    · have hbare : (opening b.block o.world).1 = .ok () := hopening
      rw [Runner.add_of_ok hopening, Runner.add_of_ok hbare]
      simp only [Runner.bare, bareRoots_append]
      rfl
  | process dt =>
    have hadvance := Runner.advance_bare dt r.roots o
    simp only [serve, bare, Runner.process, Runner.bare, hadvance]
  | cancel id =>
    have hcancel := r.cancel_bare id o
    simp only [serve, bare, hcancel]
  | dispose => rfl

/-! ## The log of a request -/

/-- The request adds the block that is observed under a key. -/
def Request.Adds (k : κ) : Request (Observed κ β) → Prop
  | add b => b.key = k
  | _ => False

/-- What the block under a key receives in a request. -/
def received [DecidableEq κ] (k : κ) (q : Request (Observed κ β)) (r : Runner (Observed κ β)) (w : σ) : List Event :=
  ((q.serve r ⟨w, []⟩).2.log.filter (·.1 = k)).map (·.2)

/-- The runner after some requests, each of them made in a world of its own. -/
def serveAll : List (Request (Observed κ β) × σ) → Runner (Observed κ β) → Runner (Observed κ β)
  | [], r => r
  | (q, w) :: requests, r => serveAll requests (q.serve r ⟨w, []⟩).1

/-- What the block under a key receives in some requests. -/
def receivedAll [DecidableEq κ] (k : κ) : List (Request (Observed κ β) × σ) → Runner (Observed κ β) → List Event
  | [], _ => []
  | (q, w) :: requests, r => received k q r w ++ receivedAll k requests (q.serve r ⟨w, []⟩).1

/-- What an observed visit adds to the log. -/
theorem Visit.log_left (dt : Float) (v : Visit (Observed κ β) (Observation κ σ)) :
    (v.left dt).log = v.world.log ++ (v.events dt).map fun event => (v.block.key, event) := by
  unfold Visit.left Visit.events
  cases v.finished dt with
  | false => rfl
  | true =>
    simp only [if_true, List.map_cons, List.map_nil]
    rw [List.append_cons, List.append_cons]
    rfl

/-- What the visits of a tick add to the log. -/
theorem Tour.log {dt : Float} {o o' : Observation κ σ} {made : List (Visit (Observed κ β) (Observation κ σ))}
    (h : Tour dt o made o') :
    o'.log = o.log ++ made.flatMap fun v => (v.events dt).map fun event => (v.block.key, event) := by
  induction h with
  | nil o => simp
  | cons _ ih => rw [ih, Visit.log_left, List.flatMap_cons, List.append_assoc]

variable {r : Runner (Observed κ β)} {w : σ}

/-- Opening an observed root opens the bare one, and both calls are noted. -/
theorem opening_observed (b : Observed κ β) : opening b (⟨w, []⟩ : Observation κ σ) =
    ((opening b.block w).1, ⟨b.key, (opening b.block w).2.1⟩,
      ⟨(opening b.block w).2.2, [.create, .enter (opening b.block w).1].map fun event => (b.key, event)⟩) := rfl

/-- Adding a root calls that root to be created and entered. -/
theorem log_add (b : Observed κ β) : ((Request.add b).serve r ⟨w, []⟩).2.log =
    [.create, .enter (opening b.block w).1].map fun event => (b.key, event) := by
  rw [Request.serve]
  rcases hopening : (opening b (⟨w, []⟩ : Observation κ σ)).1 with e | ⟨⟩
  · rw [Runner.add_of_error hopening, opening_observed]
  · rw [Runner.add_of_ok hopening, opening_observed]

/-- A tick calls the roots that it visits, in the order of the visits. -/
theorem log_process {dt : Float} {made : List (Visit (Observed κ β) (Observation κ σ))}
    {untouched : List (Nat × Observed κ β)}
    (h : TickAccount dt r.roots ⟨w, []⟩ made untouched (Runner.advance dt r.roots ⟨w, []⟩)) :
    ((Request.process dt).serve r ⟨w, []⟩).2.log =
      made.flatMap fun v => (v.events dt).map fun event => (v.block.key, event) :=
  h.world.log

/-- Cancelling calls the root that is found to be exited and destroyed. -/
theorem log_cancel (id : Nat) : ((Request.cancel id).serve r ⟨w, []⟩).2.log =
    ((r.roots.find? (·.1 == id)).toList.flatMap fun x => [.exit, .destroy].map fun event => (x.2.key, event)) := by
  simp only [Request.serve, Runner.cancel]
  cases r.roots.find? (·.1 == id) <;> rfl

/-- A root that is registered after a tick was registered before it. -/
theorem TickAccount.root_before {dt : Float} {roots untouched : List (Nat × Observed κ β)} {o : Observation κ σ}
    {made : List (Visit (Observed κ β) (Observation κ σ))} {result : Outcome × List (Nat × Observed κ β) × Observation κ σ}
    (h : TickAccount dt roots o made untouched result) : ∀ x ∈ result.2.1, ∃ y ∈ roots, y.1 = x.1 ∧ y.2.key = x.2.key := by
  intro x hx
  have hbefore : ∀ y ∈ made.map Visit.root ++ untouched, y ∈ roots := fun y hy => List.mem_reverse.mp (h.order ▸ hy)
  have hafter : x ∈ made.filterMap (Visit.kept dt) ++ untouched := h.registry ▸ List.mem_reverse.mpr hx
  rcases List.mem_append.mp hafter with hmade | huntouched
  · obtain ⟨v, hv, hkept⟩ := List.mem_filterMap.mp hmade
    unfold Visit.kept at hkept
    split at hkept
    · nomatch hkept
    · obtain rfl := Option.some.inj hkept
      exact ⟨v.root, hbefore _ (List.mem_append_left _ (List.mem_map_of_mem hv)), rfl, rfl⟩
  · exact ⟨x, hbefore x (List.mem_append_right _ huntouched), rfl, rfl⟩

/-- A root of the runner after a request was a root before it, if in another state, or has just been added. -/
theorem Request.serve_roots (q : Request (Observed κ β)) (r : Runner (Observed κ β)) (o : Observation κ σ) :
    ∀ x ∈ (q.serve r o).1.roots, (∃ y ∈ r.roots, y.1 = x.1 ∧ y.2.key = x.2.key) ∨ x.1 = r.nextId ∧ q.Adds x.2.key := by
  intro x hx
  cases q with
  | add b =>
    rw [serve] at hx
    rcases hopening : (opening b o).1 with e | ⟨⟩
    · rw [Runner.add_of_error hopening] at hx
      exact Or.inl ⟨x, hx, rfl, rfl⟩
    · rw [Runner.add_of_ok hopening] at hx
      rcases List.mem_append.mp hx with hx | hx
      · exact Or.inl ⟨x, hx, rfl, rfl⟩
      · obtain rfl := List.mem_singleton.mp hx
        exact Or.inr ⟨rfl, rfl⟩
  | process dt =>
    obtain ⟨made, untouched, haccount⟩ := Runner.advance_account dt r.roots o
    exact Or.inl (haccount.root_before x hx)
  | cancel id =>
    simp only [serve, Runner.cancel] at hx
    split at hx
    · exact Or.inl ⟨x, hx, rfl, rfl⟩
    · exact Or.inl ⟨x, List.mem_of_mem_eraseP hx, rfl, rfl⟩
  | dispose => nomatch hx

/-- No id is given out twice. -/
theorem Request.nextId_le (q : Request (Observed κ β)) (r : Runner (Observed κ β)) (o : Observation κ σ) :
    r.nextId ≤ (q.serve r o).1.nextId := by
  cases q with
  | add b =>
    rcases hopening : (opening b o).1 with e | ⟨⟩
    · have hsame : ((add b).serve r o).1.nextId = r.nextId := by rw [serve, Runner.add_of_error hopening]
      exact Nat.le_of_eq hsame.symm
    · have hnext : ((add b).serve r o).1.nextId = r.nextId + 1 := by rw [serve, Runner.add_of_ok hopening]
      exact Nat.le_of_lt (Nat.lt_of_lt_of_eq (Nat.lt_succ_self _) hnext.symm)
  | process dt => exact Nat.le_refl _
  | cancel id =>
    simp only [serve, Runner.cancel]
    split <;> exact Nat.le_refl _
  | dispose => exact Nat.le_refl _

/-! ## What one block receives -/

variable [DecidableEq κ] {k : κ}

/-- Of a series of calls on blocks, what one of them receives. -/
theorem events_of_key {ι : Type x} (key : ι → κ) (events : ι → List Event) (calls : List ι) :
    ((calls.flatMap fun i => (events i).map fun event => (key i, event)).filter (·.1 = k)).map (·.2) =
      (calls.filter (key · = k)).flatMap events := by
  induction calls with
  | nil => rfl
  | cons i calls ih =>
    rw [List.flatMap_cons, List.filter_append, List.map_append, ih]
    by_cases hi : key i = k
    · have hall : ∀ x ∈ (events i).map fun event => (key i, event), decide (x.1 = k) = true := by simp [hi]
      rw [List.filter_eq_self.mpr hall, List.filter_cons_of_pos (by simpa), List.flatMap_cons, List.map_map]
      exact congrArg (· ++ _) (List.map_id _)
    · have hnone : ∀ x ∈ (events i).map fun event => (key i, event), ¬decide (x.1 = k) = true := by simp [hi]
      rw [List.filter_eq_nil_iff.mpr hnone, List.filter_cons_of_neg (by simpa)]
      rfl

/-- Adding a root calls no other. -/
theorem received_add (b : Observed κ β) : received k (.add b) r w =
    if b.key = k then [.create, .enter (opening b.block w).1] else [] := by
  have hevents := events_of_key (k := k) (fun b : Observed κ β => b.key)
    (fun b => [.create, .enter (opening b.block w).1]) [b]
  rw [List.flatMap_singleton] at hevents
  rw [received, log_add, hevents]
  by_cases hb : b.key = k <;> simp [hb]

/-- A root receives the calls of its own visits in a tick. -/
theorem received_process {dt : Float} {made : List (Visit (Observed κ β) (Observation κ σ))}
    {untouched : List (Nat × Observed κ β)}
    (h : TickAccount dt r.roots ⟨w, []⟩ made untouched (Runner.advance dt r.roots ⟨w, []⟩)) :
    received k (.process dt) r w = (made.filter (·.block.key = k)).flatMap (Visit.events dt) := by
  rw [received, log_process h, events_of_key (fun v : Visit (Observed κ β) (Observation κ σ) => v.block.key)]

/-- A root receives the calls of its own cancellation. -/
theorem received_cancel (id : Nat) : received k (.cancel id) r w =
    ((r.roots.find? (·.1 == id)).toList.filter (·.2.key = k)).flatMap fun _ => [.exit, .destroy] := by
  rw [received, log_cancel, events_of_key (fun x : Nat × Observed κ β => x.2.key)]

end

end BlockScript
