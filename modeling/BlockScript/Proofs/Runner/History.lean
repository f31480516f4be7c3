import BlockScript.Block.Primitive
import BlockScript.Proofs.Block.LeafCalls
import BlockScript.Proofs.Runner.Requests

/-!
# The history of a root

A block that is registered with a runner lodges there under the id it got, and a block that is not is a `Stranger` and stays one.
`Lodges.serve` is all that a single request can do to a registered block, and what a root receives from its first call to its last
follows by induction on the requests (`root_history`).
-/

namespace BlockScript

section

variable {β : Type u} {σ : Type v} [Block β σ]

/-- What a request makes a root receive, by the id of the root and by the runner and the world that the request finds. -/
inductive Turn (id : Nat) (r : Runner β) (w : σ) : Request β → List Event → Prop where
  /-- The root is not registered. -/
  | absent (q : Request β) : r.contains id = false → Turn id r w q []
  | beside (b : β) : Turn id r w (.add b) []
  /-- A newer root failed, and the tick ended before it came to the root. -/
  | passedOver {dt : Float} {made : List (Visit β σ)} {untouched : List (Nat × β)} :
      TickAccount dt r.roots w made untouched (Runner.advance dt r.roots w) → made.filter (·.id = id) = [] →
      Turn id r w (.process dt) []
  | visited {dt : Float} {made : List (Visit β σ)} {untouched : List (Nat × β)} {v : Visit β σ} :
      TickAccount dt r.roots w made untouched (Runner.advance dt r.roots w) → made.filter (·.id = id) = [v] →
      Turn id r w (.process dt) (v.events dt)
  | cancelled : r.contains id = true → Turn id r w (.cancel id) [.exit, .destroy]
  | spared {other : Nat} : other ≠ id → Turn id r w (.cancel other) []
  | disposed : Turn id r w .dispose []

/-- All that a root receives after it was entered, until some requests are served and the runner is as given. -/
inductive Story (id : Nat) (requests : List (Request β × σ)) (now : Runner β) : List Event → Prop where
  | active (runs : List Outcome) : now.contains id = true → Story id requests now (runs.map .run)
  | left (runs : List Outcome) : now.contains id = false → Story id requests now (runs.map .run ++ [.exit, .destroy])
  /-- The root was dropped with all others, and not exited. -/
  | dropped (runs : List Outcome) : now.contains id = false → (∃ w, (.dispose, w) ∈ requests) →
      Story id requests now (runs.map .run)

omit [Block β σ] in
/-- A request in which the root waited or ran comes before the rest of its story. -/
theorem Story.cons {id : Nat} {requests : List (Request β × σ)} {now : Runner β} {events : List Event}
    (h : Story id requests now events) (x : Request β × σ) (runs : List Outcome) :
    Story id (x :: requests) now (runs.map .run ++ events) := by
  cases h with
  | active later hnow =>
    rw [← List.map_append]
    exact .active (runs ++ later) hnow
  | left later hnow =>
    rw [← List.append_assoc, ← List.map_append]
    exact .left (runs ++ later) hnow
  | dropped later hnow hdispose =>
    obtain ⟨w, hw⟩ := hdispose
    rw [← List.map_append]
    exact .dropped (runs ++ later) hnow ⟨w, List.mem_cons_of_mem x hw⟩

end

section

variable {κ : Type w} {β : Type u} {σ : Type v} [Block β σ] {r : Runner (Observed κ β)} {w : σ}

/-! ## Strangers and lodgers -/

/-- No root is observed under the key. -/
def Stranger (k : κ) (r : Runner (Observed κ β)) : Prop := ∀ x ∈ r.roots, x.2.key ≠ k

/-- The block under a key was given an id by the runner. It is registered under this id in the given state, or it has left. -/
structure Lodges (k : κ) (id : Nat) (now : Option β) (r : Runner (Observed κ β)) : Prop where
  issued : id < r.nextId
  only : ∀ x ∈ r.roots, x.2.key = k → x.1 = id
  here : r.under id = (now.map fun b => (id, ⟨k, b⟩)).toList

namespace Lodges

variable {k : κ} {id : Nat} {now : Option β}

omit [Block β σ] in
/-- The runner contains the id exactly while the root lodges there. -/
theorem contains_eq (h : Lodges k id now r) : r.contains id = now.isSome := by
  rw [Bool.eq_iff_iff, Runner.contains_iff, h.here]
  cases now <;> simp

omit [Block β σ] in
/-- A block that has left is a stranger. -/
theorem stranger (h : Lodges k id (none : Option β) r) : Stranger k r := by
  intro x hx hkey
  have hunder : x ∈ r.under id := List.mem_filter.mpr ⟨hx, by simpa using h.only x hx hkey⟩
  rw [h.here] at hunder
  nomatch hunder

/-- Where a request leaves the block is told by the roots under its id. -/
theorem carry (h : Lodges k id now r) {q : Request (Observed κ β)} (hq : ¬q.Adds k) {o : Observation κ σ} {later : Option β}
    (hhere : (q.serve r o).1.under id = (later.map fun b => (id, ⟨k, b⟩)).toList) : Lodges k id later (q.serve r o).1 where
  issued := Nat.lt_of_lt_of_le h.issued (q.nextId_le r o)
  only x hx hkey := by
    rcases q.serve_roots r o x hx with ⟨y, hy, hid, hykey⟩ | ⟨-, hadds⟩
    · exact hid ▸ h.only y hy (hykey.trans hkey)
    · exact absurd (hkey ▸ hadds) hq
  here := hhere

/-- A block that has left does not come back. -/
theorem gone (h : Lodges k id (none : Option β) r) {q : Request (Observed κ β)} (hq : ¬q.Adds k) (o : Observation κ σ) :
    Lodges k id (none : Option β) (q.serve r o).1 := by
  refine h.carry hq (List.filter_eq_nil_iff.mpr fun x hx hid => ?_)
  have hxid : x.1 = id := of_decide_eq_true hid
  rcases q.serve_roots r o x hx with ⟨y, hy, hyid, -⟩ | ⟨hnext, -⟩
  · have hunder : y ∈ r.under id := List.mem_filter.mpr ⟨hy, by simpa using hyid.trans hxid⟩
    rw [h.here] at hunder
    nomatch hunder
  · exact absurd (hxid.symm.trans hnext) (Nat.ne_of_lt h.issued)

/-- Among the visits of a tick, those of the block are those of its id. -/
theorem filter_visits [DecidableEq κ] (h : Lodges k id now r) {dt : Float} {o : Observation κ σ}
    {made : List (Visit (Observed κ β) (Observation κ σ))} {untouched : List (Nat × Observed κ β)}
    (haccount : TickAccount dt r.roots o made untouched (Runner.advance dt r.roots o)) :
    made.filter (·.block.key = k) = made.filter (·.id = id) := by
  refine List.filter_congr fun v hv => ?_
  have hroot : v.root ∈ r.roots := List.mem_reverse.mp (haccount.order ▸ List.mem_append_left _ (List.mem_map_of_mem hv))
  have hiff : v.block.key = k ↔ v.id = id := by
    refine ⟨fun hkey => h.only v.root hroot hkey, fun hid => ?_⟩
    have hunder : v.root ∈ r.under id := List.mem_filter.mpr ⟨hroot, decide_eq_true hid⟩
    rw [h.here] at hunder
    cases now with
    | none => nomatch hunder
    | some b => exact congrArg (fun x => x.2.key) (List.mem_singleton.mp hunder)
  exact decide_eq_decide.mpr hiff

end Lodges

/-- A root that is alone under its id is the one that is cancelled, and its id is then free. -/
theorem Runner.cancel_of_under {γ : Type x} [Block γ σ] {r : Runner γ} {id : Nat} {x : Nat × γ} (h : r.under id = [x]) (w : σ) :
    r.roots.find? (·.1 == id) = some x ∧ (r.cancel id w).2.1.under id = [] := by
  have hfilter : r.roots.filter (·.1 == id) = [x] := h
  have hfind : r.roots.find? (·.1 == id) = some x := by rw [← List.head?_filter, hfilter, List.head?_cons]
  refine ⟨hfind, ?_⟩
  obtain ⟨y, before, after, hbefore, hy, hroots, herased⟩ :=
    List.exists_of_eraseP (List.mem_of_find?_eq_some hfind) (List.find?_some hfind)
  have hnone : before.filter (·.1 == id) = [] := List.filter_eq_nil_iff.mpr hbefore
  rw [hroots, List.filter_append, hnone, List.nil_append] at hfilter
  have hrest : y :: after.filter (·.1 == id) = [x] := by simpa only [List.filter_cons, hy, if_true] using hfilter
  have hafter : after.filter (·.1 == id) = [] := (List.cons_eq_cons.mp hrest).2
  have hunder : (before ++ after).filter (·.1 == id) = [] := by rw [List.filter_append, hnone, hafter, List.nil_append]
  simp only [cancel, hfind, herased]
  exact hunder

/-! ## What a block receives -/

variable [DecidableEq κ] {k : κ}

/-- A block that is not registered receives nothing, and is not registered by a request that adds other blocks. -/
theorem Stranger.serve (h : Stranger k r) {q : Request (Observed κ β)} (hq : ¬q.Adds k) (w : σ) :
    received k q r w = [] ∧ Stranger k (q.serve r ⟨w, []⟩).1 := by
  constructor
  · cases q with
    | add b => exact (received_add b).trans (if_neg hq)
    | process dt =>
      obtain ⟨made, untouched, haccount⟩ := Runner.advance_account dt r.roots (⟨w, []⟩ : Observation κ σ)
      have hothers : ∀ v ∈ made, ¬decide (v.block.key = k) = true := by
        intro v hv
        have hroot : v.root ∈ r.roots :=
          List.mem_reverse.mp (haccount.order ▸ List.mem_append_left _ (List.mem_map_of_mem hv))
        have hkey : v.block.key ≠ k := h _ hroot
        simpa using hkey
      rw [received_process haccount, List.filter_eq_nil_iff.mpr hothers, List.flatMap_nil]
    | cancel id =>
      have hothers : ∀ x ∈ (r.roots.find? (·.1 == id)).toList, ¬decide (x.2.key = k) = true := by
        intro x hx
        simpa using h x (List.mem_of_find?_eq_some (Option.mem_toList.mp hx))
      rw [received_cancel, List.filter_eq_nil_iff.mpr hothers, List.flatMap_nil]
    | dispose => rfl
  · intro x hx hkey
    rcases q.serve_roots r _ x hx with ⟨y, hy, -, hykey⟩ | ⟨-, hadds⟩
    · exact h y hy (hykey.trans hkey)
    · exact hq (hkey ▸ hadds)

/-- A root stays a stranger as long as no request adds it. -/
theorem Stranger.stays (requests : List (Request (Observed κ β) × σ)) (hrequests : ∀ x ∈ requests, ¬x.1.Adds k)
    {r : Runner (Observed κ β)} (h : Stranger k r) :
    receivedAll k requests r = [] ∧ Stranger k (serveAll requests r) := by
  induction requests generalizing r with
  | nil => exact ⟨rfl, h⟩
  | cons x requests ih =>
    obtain ⟨q, w⟩ := x
    obtain ⟨hnothing, hstays⟩ := h.serve (hrequests (q, w) (by simp)) w
    obtain ⟨hnothing', hstays'⟩ := ih (fun y hy => hrequests y (by simp [hy])) hstays
    rw [receivedAll, hnothing, hnothing']
    exact ⟨rfl, hstays'⟩

/-- What a request can make of a registered block, by what the block receives. -/
inductive Stay (k : κ) (id : Nat) (q : Request (Observed κ β)) (after : Runner (Observed κ β)) : List Event → Prop where
  | waited (b : β) : Lodges k id (some b) after → Stay k id q after []
  | ran (b : β) (outcome : Outcome) : Lodges k id (some b) after → Stay k id q after [.run outcome]
  | retired (runs : List Outcome) : Lodges k id (none : Option β) after → Stay k id q after (runs.map .run ++ [.exit, .destroy])
  | dropped : q = .dispose → Lodges k id (none : Option β) after → Stay k id q after []

namespace Lodges

variable {id : Nat} {b : β}

/-- What a tick does to a registered block. -/
theorem serve_process (h : Lodges k id (some b) r) (dt : Float) (w : σ) :
    Turn id r ⟨w, []⟩ (.process dt) (received k (.process dt) r w) ∧
      Stay k id (.process dt) ((Request.process dt).serve r ⟨w, []⟩).1 (received k (.process dt) r w) := by
  obtain ⟨made, untouched, haccount⟩ := Runner.advance_account dt r.roots (⟨w, []⟩ : Observation κ σ)
  rw [received_process haccount, h.filter_visits haccount]
  rcases haccount.visits_of_root h.here with ⟨hmade, hsame⟩ | ⟨v, hmade, hv, hafter⟩
  · rw [hmade]
    exact ⟨.passedOver haccount hmade, .waited b (h.carry (q := .process dt) not_false hsame)⟩
  · rw [hmade, List.flatMap_singleton]
    refine ⟨.visited haccount hmade, ?_⟩
    obtain ⟨hid, hblock⟩ : v.id = id ∧ v.block = ⟨k, b⟩ := Prod.ext_iff.mp hv
    have hkey : (v.after dt).key = k := congrArg Observed.key hblock
    unfold Visit.events
    unfold Visit.kept at hafter
    cases hfinished : v.finished dt with
    | true =>
      rw [hfinished] at hafter
      exact .retired [v.outcome dt] (h.carry (q := .process dt) not_false hafter)
    | false =>
      rw [hfinished] at hafter
      refine .ran (v.after dt).block (v.outcome dt) (h.carry (q := .process dt) not_false (hafter.trans ?_))
      rw [← hid, ← hkey]
      rfl

/-- What cancelling a root does to a registered block. -/
theorem serve_cancel (h : Lodges k id (some b) r) (other : Nat) (w : σ) :
    Turn id r ⟨w, []⟩ (.cancel other) (received k (.cancel other) r w) ∧
      Stay k id (.cancel other) ((Request.cancel other).serve r ⟨w, []⟩).1 (received k (.cancel other) r w) := by
  rw [received_cancel]
  by_cases hother : other = id
  · subst hother
    obtain ⟨hfind, hunder⟩ := Runner.cancel_of_under h.here (⟨w, []⟩ : Observation κ σ)
    have hown : (r.roots.find? (·.1 == other)).toList.filter (·.2.key = k) = [(other, ⟨k, b⟩)] := by simp [hfind]
    rw [hown]
    exact ⟨.cancelled h.contains_eq, .retired [] (h.carry (q := .cancel other) not_false hunder)⟩
  · have hspared : ∀ x ∈ (r.roots.find? (·.1 == other)).toList, ¬decide (x.2.key = k) = true := by
      intro x hx hkey
      have hfind := Option.mem_toList.mp hx
      have hid : x.1 = id := h.only x (List.mem_of_find?_eq_some hfind) (of_decide_eq_true hkey)
      have hsame : x.1 = other := by simpa using List.find?_some hfind
      exact hother (hsame.symm.trans hid)
    obtain ⟨-, hunder⟩ := Runner.under_cancel (r := r) hother (⟨w, []⟩ : Observation κ σ)
    rw [List.filter_eq_nil_iff.mpr hspared]
    exact ⟨.spared hother, .waited b (h.carry (q := .cancel other) not_false (hunder.trans h.here))⟩

/-- What any request does to a registered block. -/
theorem serve (h : Lodges k id (some b) r) {q : Request (Observed κ β)} (hq : ¬q.Adds k) (w : σ) :
    Turn id r ⟨w, []⟩ q (received k q r w) ∧ Stay k id q (q.serve r ⟨w, []⟩).1 (received k q r w) := by
  cases q with
  | add c =>
    obtain ⟨-, hunder⟩ := Runner.under_add h.issued c (⟨w, []⟩ : Observation κ σ)
    rw [(received_add c).trans (if_neg hq)]
    exact ⟨.beside c, .waited b (h.carry hq (hunder.trans h.here))⟩
  | process dt => exact h.serve_process dt w
  | cancel other => exact h.serve_cancel other w
  | dispose => exact ⟨.disposed, .dropped rfl (h.carry hq rfl)⟩

/-- Registered or not, a block that has an id has its turn in every request. -/
theorem turn {now : Option β} (h : Lodges k id now r) {q : Request (Observed κ β)} (hq : ¬q.Adds k) (w : σ) :
    Turn id r ⟨w, []⟩ q (received k q r w) ∧ ∃ later : Option β, Lodges k id later (q.serve r ⟨w, []⟩).1 := by
  cases now with
  | none =>
    rw [(h.stranger.serve hq w).1]
    exact ⟨.absent q h.contains_eq, none, h.gone hq _⟩
  | some b =>
    obtain ⟨hturn, hstay⟩ := h.serve hq w
    refine ⟨hturn, ?_⟩
    generalize received k q r w = events at hstay
    cases hstay with
    | waited b' h' => exact ⟨some b', h'⟩
    | ran b' _ h' => exact ⟨some b', h'⟩
    | retired _ h' => exact ⟨none, h'⟩
    | dropped _ h' => exact ⟨none, h'⟩

/-- A block that has an id has its turn in every request of a series. -/
theorem turns {now : Option β} (h : Lodges k id now r) (earlier : List (Request (Observed κ β) × σ))
    {q : Request (Observed κ β)} {w : σ} {later : List (Request (Observed κ β) × σ)}
    (hkey : ∀ x ∈ earlier ++ (q, w) :: later, ¬x.1.Adds k) :
    Turn id (serveAll earlier r) ⟨w, []⟩ q (received k q (serveAll earlier r) w) := by
  induction earlier generalizing r now with
  | nil => exact (h.turn (hkey (q, w) (by simp)) w).1
  | cons x earlier ih =>
    obtain ⟨-, now', h'⟩ := h.turn (hkey x (by simp)) x.2
    exact ih h' fun y hy => hkey y (List.mem_cons_of_mem x hy)

/-- A block that has left receives nothing, and its id stays free. -/
theorem gone_all (h : Lodges k id (none : Option β) r) {requests : List (Request (Observed κ β) × σ)}
    (hkey : ∀ x ∈ requests, ¬x.1.Adds k) :
    receivedAll k requests r = [] ∧ (serveAll requests r).contains id = false := by
  refine ⟨(h.stranger.stays requests hkey).1, ?_⟩
  induction requests generalizing r with
  | nil => exact h.contains_eq
  | cons x requests ih =>
    obtain ⟨q, w⟩ := x
    exact ih (h.gone (hkey (q, w) (by simp)) _) fun y hy => hkey y (by simp [hy])

end Lodges

/-- What a registered block receives in a series of requests. -/
theorem Lodges.story {id : Nat} {b : β} (h : Lodges k id (some b) r) {requests : List (Request (Observed κ β) × σ)}
    (hkey : ∀ x ∈ requests, ¬x.1.Adds k) : Story id requests (serveAll requests r) (receivedAll k requests r) := by
  induction requests generalizing r b with
  | nil => exact .active [] h.contains_eq
  | cons x requests ih =>
    obtain ⟨q, w⟩ := x
    obtain ⟨-, hstay⟩ := h.serve (hkey (q, w) (by simp)) w
    have hkey' : ∀ y ∈ requests, ¬y.1.Adds k := fun y hy => hkey y (by simp [hy])
    rw [receivedAll, serveAll]
    generalize received k q r w = events at hstay
    cases hstay with
    | waited b' h' => exact (ih h' hkey').cons (q, w) []
    | ran b' outcome h' => exact (ih h' hkey').cons (q, w) [outcome]
    | retired runs h' =>
      obtain ⟨hnothing, hgone⟩ := h'.gone_all hkey'
      rw [hnothing, List.append_nil]
      exact .left runs hgone
    | dropped hq h' =>
      obtain rfl : q = .dispose := hq
      obtain ⟨hnothing, hgone⟩ := h'.gone_all hkey'
      rw [hnothing]
      exact .dropped [] hgone ⟨w, List.mem_cons_self⟩

/-! ## From the first call to the last -/

omit [DecidableEq κ] in
/-- All ids stay issued through a series of requests. -/
theorem Runner.Issued.serveAll (requests : List (Request (Observed κ β) × σ)) {r : Runner (Observed κ β)} (h : r.Issued) :
    (serveAll requests r).Issued := by
  induction requests generalizing r with
  | nil => exact h
  | cons x requests ih =>
    obtain ⟨q, w⟩ := x
    refine ih ?_
    cases q with
    | add b => exact h.add b _
    | process dt => exact h.process dt _
    | cancel id => exact h.cancel id _
    | dispose => exact fun x hx => nomatch hx

/-- The runner after the request that adds a block. -/
def joined (k : κ) (b : β) (w : σ) (r : Runner (Observed κ β)) : Runner (Observed κ β) := (r.add ⟨k, b⟩ ⟨w, []⟩).2.1

omit [DecidableEq κ] in
/-- A block that could not be entered stays a stranger. -/
theorem Stranger.refused (h : Stranger k r) {b : β} (hopening : (opening b w).1 ≠ .ok ()) : Stranger k (joined k b w r) := by
  rcases hobserved : (opening (⟨k, b⟩ : Observed κ β) (⟨w, []⟩ : Observation κ σ)).1 with e | ⟨⟩
  · rw [joined, Runner.add_of_error hobserved]
    exact h
  · exact absurd hobserved hopening

omit [DecidableEq κ] in
/-- A block that was entered lodges under the next id. -/
theorem Stranger.lodges (h : Stranger k r) (hissued : r.Issued) {b : β} (hopening : (opening b w).1 = .ok ()) :
    Lodges k r.nextId (some (opening b w).2.1) (joined k b w r) := by
  rw [joined, Runner.add_of_ok (b := (⟨k, b⟩ : Observed κ β)) (w := (⟨w, []⟩ : Observation κ σ)) hopening]
  refine ⟨Nat.lt_succ_self _, fun x hx hxk => ?_, ?_⟩
  · rcases List.mem_append.mp hx with hx | hx
    · exact absurd hxk (h x hx)
    · obtain rfl := List.mem_singleton.mp hx
      rfl
  · have hfree : r.roots.filter (·.1 = r.nextId) = [] := hissued.under_nextId
    simp [Runner.under, hfree, opening_observed]

/-- The history of a block from the request that adds it to a runner. -/
structure RootHistory (k : κ) (b : β) (w : σ) (r : Runner (Observed κ β)) (later : List (Request (Observed κ β) × σ)) :
    Prop where
  answer : (r.add ⟨k, b⟩ ⟨w, []⟩).1 = (opening b w).1.map fun _ => r.nextId
  /-- In the request that adds it, it is created, entered and not run. -/
  added : received k (.add ⟨k, b⟩) r w = [.create, .enter (opening b w).1]
  /-- If it could not be entered, no call follows. -/
  refused : (opening b w).1 ≠ .ok () → receivedAll k later (joined k b w r) = []
  /-- If it was entered, it is run some times and may then be exited and destroyed, and no call follows. -/
  story : (opening b w).1 = .ok () →
    Story r.nextId later (serveAll later (joined k b w r)) (receivedAll k later (joined k b w r))
  /-- What each of the requests makes it receive. -/
  turns : (opening b w).1 = .ok () → ∀ before q v rest, later = before ++ (q, v) :: rest →
    Turn r.nextId (serveAll before (joined k b w r)) ⟨v, []⟩ q (received k q (serveAll before (joined k b w r)) v)

/-- From its request on, the history of a root that was a stranger is told. -/
theorem Stranger.history (h : Stranger k r) (hissued : r.Issued) (b : β) (w : σ) {later : List (Request (Observed κ β) × σ)}
    (hkey : ∀ x ∈ later, ¬x.1.Adds k) : RootHistory k b w r later where
  answer := by
    rcases hobserved : (opening (⟨k, b⟩ : Observed κ β) (⟨w, []⟩ : Observation κ σ)).1 with e | ⟨⟩
    · rw [Runner.add_of_error hobserved, show (opening b w).1 = .error e from hobserved]
      rfl
    · rw [Runner.add_of_ok hobserved, show (opening b w).1 = .ok () from hobserved]
      rfl
  added := (received_add ⟨k, b⟩).trans (if_pos rfl)
  refused hopening := ((h.refused hopening).stays later hkey).1
  story hopening := (h.lodges hissued hopening).story hkey
  turns hopening before q v rest hlater := (h.lodges hissued hopening).turns before (hlater ▸ hkey)

/-- The history of a root. A block that is added to a runner, whatever requests came before, received no call so far. The request
that adds it creates and enters it. If entering failed, it never receives a call again. If it was entered, it is run some times, once
per tick at most, and then receives nothing more, or is exited once and destroyed once and receives nothing more: in the tick in which
its run ended well and it read complete, or in the request that cancelled it while it was registered, and in no other; dropping all
roots calls none of them. All this is read off a log that changes nothing the runner does. And where a block is a tree, creating and
destroying it reach each of its leaves once, from left to right, wherever its cursors stand. -/
theorem root_history {earlier later : List (Request (Observed κ β) × σ)} (hkey : ∀ x ∈ earlier ++ later, ¬x.1.Adds k) (b : β)
    (w : σ) : receivedAll k earlier ∅ = [] ∧ RootHistory k b w (serveAll earlier ∅) later ∧
    (∀ (q : Request (Observed κ β)) (r : Runner (Observed κ β)) (o : Observation κ σ),
      q.bare.serve r.bare o.world = ((q.serve r o).1.bare, (q.serve r o).2.world)) ∧
    ∀ {α : Type u'} {τ : Type v'} [Block α τ] (t : Tree α τ) (p : Place) (v : τ) (log : List (Place × Event)),
      (t.places p).Nodup ∧
      Block.create (t.observe p) ⟨v, log⟩ = ((Block.create t v).1.observe p,
        ⟨(Block.create t v).2, log ++ (t.places p).map fun place => (place, .create)⟩) ∧
      Block.destroy (t.observe p) ⟨v, log⟩ = ((Block.destroy t v).1.observe p,
        ⟨(Block.destroy t v).2, log ++ (t.places p).map fun place => (place, .destroy)⟩) := by
  have hempty : Stranger k (∅ : Runner (Observed κ β)) := nofun
  have hissued : (serveAll earlier (∅ : Runner (Observed κ β))).Issued := Runner.Issued.empty.serveAll earlier
  obtain ⟨hbefore, hstranger⟩ := hempty.stays earlier fun x hx => hkey x (List.mem_append_left _ hx)
  exact ⟨hbefore, hstranger.history hissued b w fun x hx => hkey x (List.mem_append_right _ hx),
    fun q r o => q.serve_bare r o, fun t p v log => ⟨t.nodup_places p, t.create_observe p v log, t.destroy_observe p v log⟩⟩

end

/-- A callback, and then the callback again and again. -/
def blinker : BuiltIn Bool := .ofList [.leaf (.perform not), .repeating .forever [.leaf (.perform not)]]

/-- Another root comes and goes. -/
def earlierRequests : List (Request (Observed Nat (BuiltIn Bool)) × Bool) :=
  [(.add ⟨0, .leaf (.perform not)⟩, true), (.process 1.0, true)]

/-- A newer root is added and cancelled while the first one runs. -/
def laterRequests : List (Request (Observed Nat (BuiltIn Bool)) × Bool) :=
  [(.process 1.0, true), (.add ⟨2, blinker⟩, false), (.process 1.0, true), (.cancel 2, true), (.cancel 1, true),
    (.process 1.0, false)]

/-- A blinker that is added second and cancelled later. -/
theorem root_history_blinker : (∀ x ∈ earlierRequests ++ laterRequests, ¬x.1.Adds 1) ∧ (opening blinker true).1 = .ok () ∧
    RootHistory 1 blinker true (serveAll earlierRequests ∅) laterRequests ∧ (blinker.places []).Nodup := by
  have hkey : ∀ x ∈ earlierRequests ++ laterRequests, ¬x.1.Adds 1 := by
    simp [earlierRequests, laterRequests, Request.Adds]
  obtain ⟨-, hhistory, -, htree⟩ := root_history hkey blinker true
  exact ⟨hkey, rfl, hhistory, (htree blinker [] true []).1⟩

example : receivedAll 1 laterRequests (joined 1 blinker true (serveAll earlierRequests ∅)) =
    [.run (.ok ()), .run (.ok ()), .exit, .destroy] := rfl

end BlockScript
