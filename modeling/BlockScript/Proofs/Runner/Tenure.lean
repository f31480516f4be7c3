import BlockScript.Proofs.Runner.Visits

/-!
# The tenure of a root

A runner keeps its roots apart: whatever roots are added and cancelled beside one of them, and whichever of them fail, what becomes of
that one is told by its own visits. `Tenure` is what can happen to a runner while a root is in it, with the visits that the root
receives; `Career` is the story of those visits alone, and `Tenure.career` shows that it is all there is to tell.
-/

namespace BlockScript

variable {β : Type u} {σ : Type v} [Block β σ]

/-- What can happen to a runner after a root has been registered: other roots are added, others are cancelled, and ticks are made, each
in any world. The visits that the root has in the rounds of the ticks are listed with the lengths of the ticks. -/
inductive Tenure (id : Nat) (start : Runner β) : List (Float × Visit β σ) → Runner β → Prop where
  | start : Tenure id start [] start
  | add {visits : List (Float × Visit β σ)} {r : Runner β} (b : β) (w : σ) :
      Tenure id start visits r → Tenure id start visits (r.add b w).2.1
  | cancel {visits : List (Float × Visit β σ)} {r : Runner β} {other : Nat} (w : σ) :
      Tenure id start visits r → other ≠ id → Tenure id start visits (r.cancel other w).2.1
  | tick {visits : List (Float × Visit β σ)} {r : Runner β} {dt : Float} {w w' : σ} {made : List (Visit β σ)}
      {untouched : List (Nat × β)} : Tenure id start visits r → Round dt r.roots w made untouched w' →
      Tenure id start (visits ++ (made.filter (·.id = id)).map (dt, ·)) (r.process dt w).2.1

/-- The visits of a root that was registered as the given block, and what it is after them; nothing once it has finished. Every visit
finds the root as the visit before left it. -/
inductive Career (b : β) : List (Float × Visit β σ) → Option β → Prop where
  | start : Career b [] (some b)
  | visit {visits : List (Float × Visit β σ)} {v : Visit β σ} (dt : Float) :
      Career b visits (some v.block) → Career b (visits ++ [(dt, v)]) ((v.kept dt).map (·.2))

namespace Runner

/-- The entries of the registry under an id. -/
def under (r : Runner β) (id : Nat) : List (Nat × β) := r.roots.filter (·.1 = id)

omit [Block β σ] in
/-- The runner contains an id that a root is registered under. -/
theorem contains_iff (r : Runner β) (id : Nat) : r.contains id = true ↔ r.under id ≠ [] := by
  simp [contains, under, List.filter_eq_nil_iff]

/-- Every active root has an id that was given out. -/
def Issued (r : Runner β) : Prop := ∀ x ∈ r.roots, x.1 < r.nextId

namespace Issued

variable {r : Runner β} (h : r.Issued)

omit [Block β σ] in
theorem empty : Runner.Issued (∅ : Runner β) := nofun

include h

theorem add (b : β) (w : σ) : (r.add b w).2.1.Issued := by
  rcases henter : Block.enter (Block.create b w).1 (Block.create b w).2 with ⟨e | ⟨⟩, b', w'⟩
  · simpa only [Runner.add, henter] using h
  · simp only [Runner.add, henter]
    intro x hx
    rcases List.mem_append.mp hx with hx | hx
    · exact Nat.lt_succ_of_lt (h x hx)
    · obtain rfl := List.mem_singleton.mp hx
      exact Nat.lt_succ_self _

theorem cancel (id : Nat) (w : σ) : (r.cancel id w).2.1.Issued := by
  unfold Runner.cancel
  split
  · exact h
  · exact fun x hx => h x (List.mem_of_mem_eraseP hx)

theorem process (dt : Float) (w : σ) : (r.process dt w).2.1.Issued := by
  obtain ⟨made, untouched, haccount⟩ := Runner.advance_account dt r.roots w
  have hmem : ∀ x, x ∈ made.map Visit.root ++ untouched → x.1 < r.nextId := fun x hx =>
    h x (List.mem_reverse.mp (haccount.order ▸ hx))
  intro x hx
  have hkept : x ∈ made.filterMap (Visit.kept dt) ++ untouched := haccount.registry ▸ List.mem_reverse.mpr hx
  rcases List.mem_append.mp hkept with hx | hx
  · obtain ⟨v, hv, hvx⟩ := List.mem_filterMap.mp hx
    have hid : x.1 = v.id := by
      unfold Visit.kept at hvx
      split at hvx
      · nomatch hvx
      · exact congrArg Prod.fst (Option.some.inj hvx).symm
    exact hid ▸ hmem v.root (List.mem_append_left _ (List.mem_map_of_mem hv))
  · exact hmem x (List.mem_append_right _ hx)

end Issued

/-- The id that comes next is no root's. -/
theorem Issued.under_nextId {r : Runner β} (h : r.Issued) : r.under r.nextId = [] :=
  List.filter_eq_nil_iff.mpr fun x hx => by simpa using Nat.ne_of_lt (h x hx)

/-- Adding a root changes nothing under the ids that were given before. -/
theorem under_add {r : Runner β} {id : Nat} (hid : id < r.nextId) (b : β) (w : σ) :
    id < (r.add b w).2.1.nextId ∧ (r.add b w).2.1.under id = r.under id := by
  rcases henter : Block.enter (Block.create b w).1 (Block.create b w).2 with ⟨e | ⟨⟩, b', w'⟩
  · simp only [add, henter]
    exact ⟨hid, trivial⟩
  · simp only [add, henter]
    exact ⟨Nat.lt_succ_of_lt hid, by simp [under, Nat.ne_of_gt hid]⟩

/-- Cancelling changes nothing under other ids. -/
theorem under_cancel {r : Runner β} {id other : Nat} (hne : other ≠ id) (w : σ) :
    (r.cancel other w).2.1.nextId = r.nextId ∧ (r.cancel other w).2.1.under id = r.under id := by
  unfold cancel
  cases hfind : r.roots.find? (·.1 == other) with
  | none => exact ⟨rfl, rfl⟩
  | some x =>
    refine ⟨rfl, ?_⟩
    rcases List.exists_or_eq_self_of_eraseP (·.1 == other) r.roots with hself | ⟨y, before, after, -, hy, hroots, herased⟩
    · simp only [under, hself]
    · have hdropped : ¬y.1 = id := fun hid => hne ((eq_of_beq hy).symm.trans hid)
      simp only [under, herased]
      rw [hroots, List.filter_append, List.filter_append, List.filter_cons_of_neg (by simpa using hdropped)]

end Runner

/-- The visits of a root keep the root under its id. -/
theorem filter_filterMap_kept (dt : Float) (id : Nat) (visits : List (Visit β σ)) :
    (visits.filterMap (Visit.kept dt)).filter (·.1 = id) = (visits.filter (·.id = id)).filterMap (Visit.kept dt) := by
  induction visits with
  | nil => rfl
  | cons v visits ih =>
    by_cases hfinished : v.finished dt = true
    · have hkept : v.kept dt = none := if_pos hfinished
      by_cases hid : v.id = id <;> simp [hkept, hid, ih]
    · have hkept : v.kept dt = some (v.id, v.after dt) := if_neg hfinished
      by_cases hid : v.id = id <;> simp [hkept, hid, ih]

/-- A tick as the roots under an id see it. -/
theorem TickAccount.under {dt : Float} {r : Runner β} {w : σ} {made : List (Visit β σ)} {untouched : List (Nat × β)}
    (h : TickAccount dt r.roots w made untouched (Runner.advance dt r.roots w)) (id : Nat) :
    (r.under id).reverse = (made.filter (·.id = id)).map Visit.root ++ untouched.filter (·.1 = id) ∧
      ((r.process dt w).2.1.under id).reverse =
        (made.filter (·.id = id)).filterMap (Visit.kept dt) ++ untouched.filter (·.1 = id) := by
  constructor
  · rw [Runner.under, ← List.filter_reverse, h.order, List.filter_append, List.filter_map]
    rfl
  · rw [Runner.under, ← List.filter_reverse, ← filter_filterMap_kept, ← List.filter_append, ← h.registry]
    rfl

/-- A tick visits a root once, or does not come to it. -/
theorem TickAccount.visits_of_root {dt : Float} {r : Runner β} {w : σ} {made : List (Visit β σ)} {untouched : List (Nat × β)}
    (h : TickAccount dt r.roots w made untouched (Runner.advance dt r.roots w)) {id : Nat} {b : β} (hroot : r.under id = [(id, b)]) :
    (made.filter (·.id = id) = [] ∧ (r.process dt w).2.1.under id = [(id, b)]) ∨
      ∃ v, made.filter (·.id = id) = [v] ∧ v.root = (id, b) ∧ (r.process dt w).2.1.under id = (v.kept dt).toList := by
  obtain ⟨hbefore, hafter⟩ := h.under id
  rw [hroot, List.reverse_singleton] at hbefore
  cases hmade : made.filter (·.id = id) with
  | nil =>
    rw [hmade, List.map_nil, List.nil_append] at hbefore
    rw [hmade, ← hbefore, List.filterMap_nil, List.nil_append, List.reverse_eq_iff] at hafter
    exact Or.inl ⟨rfl, hafter⟩
  | cons v rest =>
    rw [hmade] at hbefore hafter
    obtain ⟨hv, hrest⟩ := List.cons_eq_cons.mp hbefore
    obtain ⟨hnone, huntouched⟩ := List.append_eq_nil_iff.mp hrest.symm
    obtain rfl : rest = [] := List.map_eq_nil_iff.mp hnone
    refine Or.inr ⟨v, rfl, hv.symm, ?_⟩
    rw [huntouched, List.append_nil] at hafter
    cases hkept : v.kept dt <;> simpa [hkept, List.reverse_eq_iff] using hafter

/-- A tick does not bring back a root that is gone. -/
theorem TickAccount.no_visits {dt : Float} {r : Runner β} {w : σ} {made : List (Visit β σ)} {untouched : List (Nat × β)}
    (h : TickAccount dt r.roots w made untouched (Runner.advance dt r.roots w)) {id : Nat} (hgone : r.under id = []) :
    made.filter (·.id = id) = [] ∧ (r.process dt w).2.1.under id = [] := by
  obtain ⟨hbefore, hafter⟩ := h.under id
  rw [hgone, List.reverse_nil] at hbefore
  obtain ⟨hnone, huntouched⟩ := List.append_eq_nil_iff.mp hbefore.symm
  have hmade : made.filter (·.id = id) = [] := List.map_eq_nil_iff.mp hnone
  rw [hmade, huntouched, List.filterMap_nil, List.nil_append, List.reverse_eq_iff] at hafter
  exact ⟨hmade, hafter⟩

/-- Whatever happens to the runner, a root that has got its id goes through its own career there. -/
theorem Tenure.career {id : Nat} {start r : Runner β} {b : β} {visits : List (Float × Visit β σ)} (hid : id < start.nextId)
    (hroot : start.under id = [(id, b)]) (h : Tenure id start visits r) :
    id < r.nextId ∧ ∃ now, Career b visits now ∧ r.under id = (now.map (id, ·)).toList := by
  induction h with
  | start => exact ⟨hid, some b, .start, hroot⟩
  | add c w _ ih =>
    obtain ⟨hid', now, hcareer, hunder⟩ := ih
    obtain ⟨hid'', hsame⟩ := Runner.under_add hid' c w
    exact ⟨hid'', now, hcareer, hsame.trans hunder⟩
  | @cancel visits r other w _ hne ih =>
    obtain ⟨hid', now, hcareer, hunder⟩ := ih
    obtain ⟨hnext, hsame⟩ := Runner.under_cancel (r := r) hne w
    exact ⟨hnext ▸ hid', now, hcareer, hsame.trans hunder⟩
  | @tick visits r dt w w' made untouched _ hround ih =>
    have haccount := hround.account
    obtain ⟨hid', now, hcareer, hunder⟩ := ih
    refine ⟨hid', ?_⟩
    cases now with
    | none =>
      obtain ⟨hmade, hgone⟩ := haccount.no_visits hunder
      exact ⟨none, by simpa [hmade] using hcareer, hgone⟩
    | some c =>
      rcases haccount.visits_of_root hunder with ⟨hmade, hsame⟩ | ⟨v, hmade, hv, hafter⟩
      · exact ⟨some c, by simpa [hmade] using hcareer, hsame⟩
      · obtain ⟨rfl, rfl⟩ : v.id = id ∧ v.block = c := Prod.ext_iff.mp hv
        refine ⟨(v.kept dt).map (·.2), by simpa [hmade] using Career.visit dt hcareer, ?_⟩
        rw [hafter]
        unfold Visit.kept
        split <;> rfl

/-- The round of a root that is alone. -/
theorem Round.alone (dt : Float) (id : Nat) (b : β) (w : σ) :
    Round dt [(id, b)] w [⟨id, b, w⟩] [] (Visit.left dt ⟨id, b, w⟩) where
  order := rfl
  world := Tour.cons (v := ⟨id, b, w⟩) (Tour.nil _)
  failure_last := nofun
  early_end h := absurd rfl h

/-- A root that is alone is visited in every tick. -/
theorem Tenure.tick_alone {id : Nat} {start r : Runner β} {visits : List (Float × Visit β σ)} (h : Tenure id start visits r) {b : β}
    (hroots : r.roots = [(id, b)]) (dt : Float) (w : σ) :
    Tenure id start (visits ++ [(dt, ⟨id, b, w⟩)]) (r.process dt w).2.1 := by
  have hround : Round dt r.roots w [⟨id, b, w⟩] [] (Visit.left dt ⟨id, b, w⟩) := hroots ▸ Round.alone dt id b w
  simpa using h.tick hround

end BlockScript
