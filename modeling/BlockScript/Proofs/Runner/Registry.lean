import BlockScript.Proofs.Runner.History

/-!
# The registry of a runner

Ids are handed out in ascending order, none is left out and none comes back. What a single request does to the registry is told by
the id that it hands out, if any (`serve_ids`, `serve_nextId`), and by the roots that it takes out (`Removes`, `serve_contains`). For a
series of requests it follows that an id is registered exactly while it is outstanding: it was handed out, and its root has neither
completed nor been cancelled nor been dropped since (`registry_kept`).
-/

namespace BlockScript

section

variable {β : Type u} {σ : Type v} [Block β σ]

/-! ## One request -/

namespace Request

/-- The request asks for a block to be added. -/
def isAdd : Request β → Bool
  | add _ => true
  | _ => false

/-- The id that a request hands out: an addition does, if it succeeds. -/
def issues (r : Runner β) (w : σ) : Request β → Option Nat
  | add b => (r.add b w).1.toOption
  | _ => none

/-- A request takes the root of an id out of the registry: the round of the tick that is asked for visits the root, and finds it finished,
or the root is cancelled, or it is dropped with all others. -/
inductive Removes (id : Nat) (r : Runner β) (w : σ) : Request β → Prop where
  | completed {dt : Float} {visits : List (Visit β σ)} {untouched : List (Nat × β)} {w' : σ} {v : Visit β σ} :
      Round dt r.roots w visits untouched w' → v ∈ visits → v.id = id → v.finished dt = true → Removes id r w (.process dt)
  | cancelled : Removes id r w (.cancel id)
  | dropped : Removes id r w .dispose

end Request

/-- The id of a root that stays registered after a visit. -/
theorem Visit.kept_ids (dt : Float) (visits : List (Visit β σ)) :
    ((visits.filterMap (Visit.kept dt)).map (·.1)).Sublist (visits.map (·.id)) := by
  induction visits with
  | nil => exact List.Sublist.slnil
  | cons v visits ih =>
    cases hfinished : v.finished dt with
    | true =>
      have hkept : v.kept dt = none := if_pos hfinished
      rw [List.filterMap_cons_none hkept]
      exact ih.cons v.id
    | false =>
      have hkept : v.kept dt = some (v.id, v.after dt) := if_neg (by simp [hfinished])
      rw [List.filterMap_cons_some hkept]
      exact ih.cons_cons v.id

/-- The roots after a tick are some of those before it, in the same order. -/
theorem TickAccount.ids {dt : Float} {roots untouched : List (Nat × β)} {w : σ} {visits : List (Visit β σ)}
    {result : Outcome × List (Nat × β) × σ} (h : TickAccount dt roots w visits untouched result) :
    (result.2.1.map (·.1)).Sublist (roots.map (·.1)) := by
  have hbefore : (roots.map (·.1)).reverse = visits.map (·.id) ++ untouched.map (·.1) := by
    rw [← List.map_reverse, h.order, List.map_append, List.map_map]
    rfl
  have hafter : (result.2.1.map (·.1)).reverse = (visits.filterMap (Visit.kept dt)).map (·.1) ++ untouched.map (·.1) := by
    rw [← List.map_reverse, h.registry, List.map_append]
  rw [← List.reverse_sublist, hbefore, hafter]
  exact (Visit.kept_ids dt visits).append (List.Sublist.refl _)

namespace Runner

/-- The registered ids, the oldest first. -/
def ids (r : Runner β) : List Nat := r.roots.map (·.1)

omit [Block β σ] in
/-- The runner contains the ids of its roots. -/
theorem contains_iff_mem (r : Runner β) (id : Nat) : r.contains id = true ↔ id ∈ r.ids := by
  simp [contains, ids]

/-- The registered ids ascend. -/
def Ascending (r : Runner β) : Prop := r.ids.Pairwise (· < ·)

omit [Block β σ] in
/-- Where ids ascend, a registered id has one root. -/
theorem Ascending.under_eq {r : Runner β} (h : r.Ascending) {id : Nat} (hid : r.contains id = true) :
    ∃ b, r.under id = [(id, b)] := by
  obtain ⟨x, hx, rfl⟩ := List.mem_map.mp ((r.contains_iff_mem id).mp hid)
  refine ⟨x.2, ?_⟩
  obtain ⟨older, newer, hroots⟩ := List.append_of_mem hx
  have hids : (older ++ x :: newer).Pairwise fun y z => y.1 < z.1 := hroots ▸ List.pairwise_map.mp h
  obtain ⟨-, hnewer, holder⟩ := List.pairwise_append.mp hids
  have holder' : older.filter (·.1 = x.1) = [] :=
    List.filter_eq_nil_iff.mpr fun y hy => by simpa using Nat.ne_of_lt (holder y hy x List.mem_cons_self)
  have hnewer' : newer.filter (·.1 = x.1) = [] :=
    List.filter_eq_nil_iff.mpr fun y hy => by simpa using Nat.ne_of_gt ((List.pairwise_cons.mp hnewer).1 y hy)
  simp [under, hroots, holder', hnewer']

/-- What cancelling does to the registry: a registered id is taken out and all others stay as they were; any other id changes nothing. -/
theorem cancel_registry (r : Runner β) (id : Nat) (w : σ) :
    (r.cancel id w).1 = r.contains id ∧ (r.contains id = false → (r.cancel id w).2 = (r, w)) ∧
      (r.contains id = true → ∃ older b newer, r.roots = older ++ (id, b) :: newer ∧
        (r.cancel id w).2.1 = { r with roots := older ++ newer }) := by
  have hcontains : r.contains id = (r.roots.find? (·.1 == id)).isSome := by
    rw [Bool.eq_iff_iff, contains, List.any_eq_true, List.find?_isSome]
  rw [hcontains]
  unfold cancel
  cases hfind : r.roots.find? (·.1 == id) with
  | none => exact ⟨rfl, fun _ => rfl, fun h => absurd h (by simp)⟩
  | some x =>
    refine ⟨rfl, fun h => absurd h (by simp), fun _ => ?_⟩
    obtain ⟨y, older, newer, -, hy, hroots, herased⟩ :=
      List.exists_of_eraseP (List.mem_of_find?_eq_some hfind) (List.find?_some hfind)
    obtain rfl : y.1 = id := eq_of_beq hy
    exact ⟨older, y.2, newer, hroots, by simp only [herased]⟩

end Runner

namespace Request

variable (q : Request β) (r : Runner β) (w : σ)

/-- An id that is handed out is the next one. -/
theorem issues_eq {id : Nat} (h : q.issues r w = some id) : id = r.nextId := by
  cases q with
  | add b =>
    rcases hopening : (opening b w).1 with e | ⟨⟩
    · simp [issues, Runner.add_of_error hopening, Except.toOption] at h
    · simpa [issues, Runner.add_of_ok hopening, Except.toOption, eq_comm] using h
  | process dt => nomatch h
  | cancel id => nomatch h
  | dispose => nomatch h

/-- The next id moves on by one where an id is handed out, and stays otherwise. -/
theorem serve_nextId : (q.serve r w).1.nextId = r.nextId + (q.issues r w).toList.length := by
  cases q with
  | add b =>
    rcases hopening : (opening b w).1 with e | ⟨⟩
    · simp [serve, issues, Runner.add_of_error hopening, Except.toOption]
    · simp [serve, issues, Runner.add_of_ok hopening, Except.toOption]
  | process dt => rfl
  | cancel id =>
    simp only [serve, Runner.cancel]
    split <;> rfl
  | dispose => rfl

/-- The ids registered after a request are some of those registered before it, in the same order, and then the id that it hands
out. -/
theorem serve_ids : (q.serve r w).1.ids.Sublist (r.ids ++ (q.issues r w).toList) := by
  cases q with
  | add b =>
    rcases hopening : (opening b w).1 with e | ⟨⟩
    · simp [serve, issues, Runner.ids, Runner.add_of_error hopening, Except.toOption]
    · simp [serve, issues, Runner.ids, Runner.add_of_ok hopening, Except.toOption]
  | process dt =>
    obtain ⟨made, untouched, haccount⟩ := Runner.advance_account dt r.roots w
    rw [show (process dt).issues r w = none from rfl, Option.toList_none, List.append_nil]
    exact haccount.ids
  | cancel id =>
    simp only [serve, issues, Runner.cancel]
    split
    · simp
    · simpa [Runner.ids] using List.eraseP_sublist.map _
  | dispose => exact List.nil_sublist _

/-- An addition that is refused changes neither the registry nor the next id. -/
theorem refused_add {b : β} {e : BlockError} (h : (r.add b w).1 = .error e) : (r.add b w).2.1 = r := by
  rcases hopening : (opening b w).1 with e' | ⟨⟩
  · rw [Runner.add_of_error hopening]
  · rw [Runner.add_of_ok hopening] at h
    nomatch h

variable {q r w}

/-- Serving a request keeps the ids ascending. -/
theorem serve_ascending (hascending : r.Ascending) (hissued : r.Issued) : (q.serve r w).1.Ascending := by
  refine List.Pairwise.sublist (q.serve_ids r w) (List.pairwise_append.mpr ⟨hascending, ?_, ?_⟩)
  · cases q.issues r w with
    | none => exact .nil
    | some id => exact List.pairwise_singleton _ id
  · intro old hold id hid
    obtain rfl := q.issues_eq r w (Option.mem_toList.mp hid)
    obtain ⟨x, hx, rfl⟩ := List.mem_map.mp hold
    exact hissued x hx

/-- Serving a request keeps the ids issued. -/
theorem serve_issued (hissued : r.Issued) : (q.serve r w).1.Issued := by
  cases q with
  | add b => exact hissued.add b w
  | process dt => exact hissued.process dt w
  | cancel id => exact hissued.cancel id w
  | dispose => exact fun x hx => nomatch hx

/-- A root that is registered leaves in a tick exactly if it completes there. -/
theorem process_contains (hascending : r.Ascending) {id : Nat} (hid : r.contains id = true) (dt : Float) :
    ((r.process dt w).2.1.contains id = true ↔ ¬(process dt).Removes id r w) := by
  obtain ⟨b, hunder⟩ := hascending.under_eq hid
  rw [Runner.contains_iff]
  constructor
  · rintro hafter (@⟨_, made, untouched, w', v, hround, hv, hvid, hfinished⟩ | - | -)
    have haccount := hround.account
    have hmem : v ∈ made.filter (·.id = id) := List.mem_filter.mpr ⟨hv, decide_eq_true hvid⟩
    rcases haccount.visits_of_root hunder with ⟨hnone, -⟩ | ⟨v', hmade, -, hkept⟩
    · rw [hnone] at hmem
      nomatch hmem
    · rw [hmade, List.mem_singleton] at hmem
      obtain rfl := hmem
      exact hafter (by simp [hkept, Visit.kept, hfinished])
  · intro hstays
    obtain ⟨made, untouched, haccount⟩ := Runner.advance_account dt r.roots w
    rcases haccount.visits_of_root hunder with ⟨-, hsame⟩ | ⟨v, hmade, hv, hkept⟩
    · simp [hsame]
    · have hmem : v ∈ made := (List.mem_filter.mp (hmade ▸ List.mem_singleton_self v : v ∈ made.filter (·.id = id))).1
      have hunfinished : ¬v.finished dt = true := fun hfinished =>
        hstays (.completed haccount.toRound hmem (congrArg Prod.fst hv) hfinished)
      simp [hkept, Visit.kept, hunfinished]

/-- What is registered after a request: what was registered before and is not removed, and what is handed out. -/
theorem serve_contains (hascending : r.Ascending) (hissued : r.Issued) (id : Nat) :
    (q.serve r w).1.contains id = true ↔
      (r.contains id = true ∧ ¬q.Removes id r w) ∨ q.issues r w = some id := by
  -- An id that a request finds and that is not the one it hands out was registered before.
  have hbefore : (q.serve r w).1.contains id = true → r.contains id = true ∨ q.issues r w = some id := by
    intro h
    rw [Runner.contains_iff_mem] at h ⊢
    simpa using (q.serve_ids r w).subset h
  cases q with
  | add b =>
    constructor
    · refine fun h => (hbefore h).imp_left fun hid => ⟨hid, fun hremoves => ?_⟩
      cases hremoves
    · rintro (⟨hid, -⟩ | hid)
      · obtain ⟨x, hx, hxid⟩ := List.mem_map.mp ((r.contains_iff_mem id).mp hid)
        rw [Runner.contains_iff, serve, (Runner.under_add (hxid ▸ hissued x hx) b w).2, ← Runner.contains_iff]
        exact hid
      · obtain rfl := issues_eq _ r w hid
        rcases hopening : (opening b w).1 with e | ⟨⟩
        · simp [issues, Runner.add_of_error hopening, Except.toOption] at hid
        · simp [serve, Runner.add_of_ok hopening, Runner.contains]
  | process dt =>
    constructor
    · intro h
      have hid := (hbefore h).resolve_right (by simp [issues])
      exact .inl ⟨hid, (process_contains hascending hid dt).mp h⟩
    · rintro (⟨hid, hstays⟩ | hnone)
      · exact (process_contains hascending hid dt).mpr hstays
      · simp [issues] at hnone
  | cancel other =>
    constructor
    · intro h
      have hid := (hbefore h).resolve_right (by simp [issues])
      refine .inl ⟨hid, ?_⟩
      rintro (- | - | -)
      obtain ⟨b, hunder⟩ := hascending.under_eq hid
      exact (Runner.contains_iff _ _).mp h (Runner.cancel_of_under hunder w).2
    · rintro (⟨hid, hstays⟩ | hnone)
      · have hother : other ≠ id := by
          rintro rfl
          exact hstays .cancelled
        rw [Runner.contains_iff, serve, (Runner.under_cancel hother w).2, ← Runner.contains_iff]
        exact hid
      · simp [issues] at hnone
  | dispose =>
    constructor
    · intro h
      simp [serve, Runner.dispose, Runner.contains] at h
    · rintro (⟨-, hstays⟩ | hnone)
      · exact absurd .dropped hstays
      · simp [issues] at hnone

end Request

/-! ## A series of requests -/

/-- The runner after some requests, each of them made in a world of its own: anything may happen to the world between two requests. -/
def Runner.served (r : Runner β) : List (Request β × σ) → Runner β
  | [] => r
  | (q, w) :: requests => (q.serve r w).1.served requests

/-- The ids that some requests hand out, in order. -/
def Runner.handedOut (r : Runner β) : List (Request β × σ) → List Nat
  | [] => []
  | (q, w) :: requests => (q.issues r w).toList ++ (q.serve r w).1.handedOut requests

theorem Runner.served_append (r : Runner β) (earlier later : List (Request β × σ)) :
    r.served (earlier ++ later) = (r.served earlier).served later := by
  induction earlier generalizing r with
  | nil => rfl
  | cons x earlier ih => exact ih _

/-- Serving any series keeps the ids ascending and issued. -/
theorem Runner.served_keeps {r : Runner β} (hascending : r.Ascending) (hissued : r.Issued) (requests : List (Request β × σ)) :
    (r.served requests).Ascending ∧ (r.served requests).Issued := by
  induction requests generalizing r with
  | nil => exact ⟨hascending, hissued⟩
  | cons x requests ih => exact ih (Request.serve_ascending hascending hissued) (Request.serve_issued hissued)

/-- The ids handed out are all those from one next id to the other, in ascending order. -/
theorem Runner.handedOut_eq (r : Runner β) (requests : List (Request β × σ)) :
    r.handedOut requests = List.range' r.nextId (r.handedOut requests).length ∧
      (r.served requests).nextId = r.nextId + (r.handedOut requests).length := by
  induction requests generalizing r with
  | nil => exact ⟨rfl, rfl⟩
  | cons x requests ih =>
    obtain ⟨q, w⟩ := x
    obtain ⟨hids, hnext⟩ := ih (q.serve r w).1
    rw [q.serve_nextId r w] at hids hnext
    rw [handedOut, served, hnext]
    cases hissues : q.issues r w with
    | none =>
      simp only [hissues, Option.toList_none, List.length_nil, Nat.add_zero, List.nil_append] at hids ⊢
      exact ⟨hids, trivial⟩
    | some id =>
      obtain rfl := q.issues_eq r w hissues
      simp only [hissues, Option.toList_some, List.singleton_append, List.length_cons, List.length_nil, Nat.zero_add] at hids ⊢
      rw [List.range'_succ, ← hids]
      exact ⟨rfl, by omega⟩

/-- No more ids are handed out than additions are asked for. -/
theorem Runner.length_handedOut_le (r : Runner β) (requests : List (Request β × σ)) :
    (r.handedOut requests).length ≤ requests.countP (·.1.isAdd) := by
  induction requests generalizing r with
  | nil => exact Nat.le_refl 0
  | cons x requests ih =>
    obtain ⟨q, w⟩ := x
    have hrest := ih (q.serve r w).1
    rw [handedOut, List.length_append, List.countP_cons, Nat.add_comm]
    refine Nat.add_le_add hrest ?_
    cases q with
    | add b => cases (Request.add b).issues r w <;> simp [Request.isAdd]
    | process | cancel | dispose => exact Nat.zero_le _

/-- An id is outstanding after some requests to a runner that started empty: an addition answered with the id, and no request since then
has removed its root. -/
def Outstanding (id : Nat) (requests : List (Request β × σ)) : Prop :=
  ∃ earlier b w later, requests = earlier ++ (.add b, w) :: later ∧
    (((∅ : Runner β).served earlier).add b w).1 = .ok id ∧
    ∀ before q v after, later = before ++ (q, v) :: after →
      ¬q.Removes id ((∅ : Runner β).served (earlier ++ (.add b, w) :: before)) v

/-- What is outstanding after one more request. -/
theorem outstanding_concat (id : Nat) (requests : List (Request β × σ)) (q : Request β) (w : σ) :
    Outstanding id (requests ++ [(q, w)]) ↔
      (Outstanding id requests ∧ ¬q.Removes id ((∅ : Runner β).served requests) w) ∨
        q.issues ((∅ : Runner β).served requests) w = some id := by
  constructor
  · rintro ⟨earlier, b, v, later, hrequests, hanswer, hstays⟩
    rcases List.eq_nil_or_concat later with rfl | ⟨later, x, rfl⟩
    · -- The last request is the addition itself.
      obtain ⟨rfl, hlast⟩ := List.append_inj' hrequests rfl
      obtain ⟨rfl, rfl⟩ := Prod.mk.inj (List.cons.inj hlast).1
      exact .inr (by simp [Request.issues, hanswer, Except.toOption])
    · rw [List.concat_eq_append, ← List.cons_append, ← List.append_assoc] at hrequests
      obtain ⟨rfl, hlast⟩ := List.append_inj' hrequests rfl
      obtain rfl := (List.cons.inj hlast).1
      refine .inl ⟨⟨earlier, b, v, later, rfl, hanswer, fun before q' v' after hlater => ?_⟩, ?_⟩
      · exact hstays before q' v' (after ++ [(q, w)]) (by rw [hlater]; simp)
      · exact hstays later q w [] (by simp)
  · rintro (⟨⟨earlier, b, v, later, rfl, hanswer, hstays⟩, hlast⟩ | hissues)
    · refine ⟨earlier, b, v, later ++ [(q, w)], by simp, hanswer, fun before q' v' after hlater => ?_⟩
      rcases List.eq_nil_or_concat after with rfl | ⟨after, x, rfl⟩
      · obtain ⟨rfl, hsame⟩ := List.append_inj' hlater rfl
        obtain ⟨rfl, rfl⟩ := Prod.mk.inj (List.cons.inj hsame).1
        exact hlast
      · rw [List.concat_eq_append, ← List.cons_append, ← List.append_assoc] at hlater
        exact hstays before q' v' after (List.append_inj' hlater rfl).1
    · cases q with
      | add b =>
        refine ⟨requests, b, w, [], rfl, ?_, fun before q' v' after hlater => ?_⟩
        · cases hanswer : (((∅ : Runner β).served requests).add b w).1 with
          | error e => simp [Request.issues, hanswer, Except.toOption] at hissues
          | ok n => simpa [Request.issues, hanswer, Except.toOption] using hissues
        · simp at hlater
      | process dt => nomatch hissues
      | cancel other => nomatch hissues
      | dispose => nomatch hissues

omit [Block β σ] in
/-- Without roots the ids are ascending. -/
theorem Runner.ascending_empty : (∅ : Runner β).Ascending := List.Pairwise.nil

/-- An id is registered exactly if it is outstanding. -/
theorem contains_iff_outstanding (requests : List (Request β × σ)) (id : Nat) :
    ((∅ : Runner β).served requests).contains id = true ↔ Outstanding id requests := by
  induction requests using List.reverseRecOn with
  | nil =>
    constructor
    · exact fun h => nomatch h
    · rintro ⟨earlier, b, w, later, hrequests, -⟩
      simp at hrequests
  | append_singleton requests x ih =>
    obtain ⟨q, w⟩ := x
    obtain ⟨hascending, hissued⟩ := Runner.served_keeps Runner.ascending_empty Runner.Issued.empty requests
    rw [outstanding_concat, ← ih, Runner.served_append]
    exact Request.serve_contains hascending hissued id

/-- An id that was handed out and is not registered stays so. -/
theorem Runner.stays_gone {r : Runner β} (hascending : r.Ascending) (hissued : r.Issued) {id : Nat} (hid : id < r.nextId)
    (hgone : r.contains id = false) (later : List (Request β × σ)) : (r.served later).contains id = false := by
  induction later generalizing r with
  | nil => exact hgone
  | cons x later ih =>
    obtain ⟨q, w⟩ := x
    refine ih (Request.serve_ascending hascending hissued) (Request.serve_issued hissued) ?_ ?_
    · exact Nat.lt_of_lt_of_le hid (Nat.le.intro (q.serve_nextId r w).symm)
    · rw [← Bool.not_eq_true, Request.serve_contains hascending hissued id, hgone]
      rintro (⟨hid', -⟩ | hissues)
      · nomatch hid'
      · exact Nat.ne_of_lt hid (q.issues_eq r w hissues)

/-- The registry of a runner that started empty and served some requests. -/
structure Registry (requests : List (Request β × σ)) (r : Runner β) : Prop where
  ascending : r.ids.Pairwise (· < ·)
  below : ∀ id ∈ r.ids, id < r.nextId
  /-- Every id so far, and the next one, fits in 64 bits. -/
  fits : r.nextId < UInt64.size
  /-- The ids handed out are all those below the next one, in ascending order. -/
  noGaps : (∅ : Runner β).handedOut requests = List.range r.nextId
  /-- The next addition answers with an id greater than all of them. -/
  greater : ∀ b w id, (r.add b w).1 = .ok id → ∀ earlier ∈ (∅ : Runner β).handedOut requests, earlier < id
  refused : ∀ b w e, (r.add b w).1 = .error e → (r.add b w).2.1 = r
  contains : ∀ id, r.contains id = true ↔ Outstanding id requests
  /-- An id that was handed out and is not registered never is again. -/
  gone : ∀ id ∈ (∅ : Runner β).handedOut requests, r.contains id = false →
    ∀ later : List (Request β × σ), (r.served later).contains id = false
  /-- Cancelling answers whether the id was registered, and takes out its root and nothing else. -/
  cancel : ∀ id (w : σ), (r.cancel id w).1 = r.contains id ∧ (r.contains id = false → (r.cancel id w).2 = (r, w)) ∧
    (r.contains id = true → ∃ older b newer, r.roots = older ++ (id, b) :: newer ∧
      (r.cancel id w).2.1 = { r with roots := older ++ newer })

/-- The registry and its ids. Whatever fewer than 2⁶⁴ additions, ticks, cancellations and disposals a runner has served, in whatever
worlds: the registered ids ascend and lie below the next id; the ids handed out so far are all numbers below the next id, in ascending
order, so that an addition answers with a greater id than all before, and one that is refused changes nothing; an id is registered
exactly if it was handed out and its root has neither completed in a tick nor been cancelled nor been dropped since, and once it is
not registered it never is again; and cancelling an id answers whether it was registered and takes out its root alone. -/
theorem registry_kept (requests : List (Request β × σ)) (hfew : requests.countP (·.1.isAdd) < UInt64.size) :
    Registry requests ((∅ : Runner β).served requests) := by
  obtain ⟨hascending, hissued⟩ := Runner.served_keeps Runner.ascending_empty Runner.Issued.empty requests
  obtain ⟨hids, hnext⟩ := (∅ : Runner β).handedOut_eq requests
  have hcount : ((∅ : Runner β).served requests).nextId = ((∅ : Runner β).handedOut requests).length :=
    hnext.trans (Nat.zero_add _)
  have hrange : (∅ : Runner β).handedOut requests = List.range ((∅ : Runner β).served requests).nextId := by
    rw [hcount, List.range_eq_range']
    exact hids
  exact {
    ascending := hascending
    below := fun id hid => by
      obtain ⟨x, hx, rfl⟩ := List.mem_map.mp hid
      exact hissued x hx
    fits := Nat.lt_of_le_of_lt (hcount ▸ (∅ : Runner β).length_handedOut_le requests) hfew
    noGaps := hrange
    greater := fun b w id hanswer earlier hearlier => by
      have hissues : (Request.add b).issues ((∅ : Runner β).served requests) w = some id := by
        simp [Request.issues, hanswer, Except.toOption]
      rw [Request.issues_eq _ _ _ hissues]
      exact List.mem_range.mp (hrange ▸ hearlier)
    refused := fun b w e hanswer => Request.refused_add _ w hanswer
    contains := contains_iff_outstanding requests
    gone := fun id hid hgone later => Runner.stays_gone hascending hissued (List.mem_range.mp (hrange ▸ hid)) hgone later
    cancel := fun id w => Runner.cancel_registry _ id w }

end

/-- A wait on a clock that is never there. -/
def stranded : BuiltIn Bool := .leaf (.waitFor ⟨fun _ => none, id⟩ 1.0)

/-- Roots come and go: one is refused, one is cancelled, one completes, and the rest is dropped before the last one comes. -/
def turnover : List (Request (BuiltIn Bool) × Bool) :=
  [(.add blinker, true), (.add stranded, true), (.add (.leaf (.perform not)), false), (.add blinker, true), (.cancel 0, true),
    (.process 1.0, true), (.dispose, true), (.add blinker, false)]

/-- The ids that the turnover hands out are the numbers from 0 to 3. -/
theorem registry_kept_turnover : turnover.countP (·.1.isAdd) < UInt64.size ∧ (∅ : Runner (BuiltIn Bool)).handedOut turnover = [0, 1, 2, 3] ∧
    Registry turnover ((∅ : Runner (BuiltIn Bool)).served turnover) :=
  ⟨by decide, rfl, registry_kept turnover (by decide)⟩

end BlockScript
