import BlockScript.Proofs.Runner.Registry

/-!
# Leaving the registry

A registered root stays registered until a request takes it out (`Runner.served_contains`). Where ids are cancelled one after another and
every registered one is among them, every root is retired once, in their order, and none is left; ids that are not registered any more do
no harm (`Runner.cancelEach_eq`).
-/

namespace BlockScript

section

variable {β : Type u} {σ : Type v} [Block β σ]

/-- The root of an id is taken out in one of some requests. -/
def LeavesIn (id : Nat) (r : Runner β) (requests : List (Request β × σ)) : Prop :=
  ∃ earlier q w later, requests = earlier ++ (q, w) :: later ∧ q.Removes id (r.served earlier) w

/-- A root has left after one more request if it left before or this request removes it. -/
theorem leavesIn_concat (id : Nat) (r : Runner β) (requests : List (Request β × σ)) (q : Request β) (w : σ) :
    LeavesIn id r (requests ++ [(q, w)]) ↔ LeavesIn id r requests ∨ q.Removes id (r.served requests) w := by
  constructor
  · rintro ⟨earlier, q', w', later, hrequests, hremoves⟩
    rcases List.eq_nil_or_concat later with rfl | ⟨later, x, rfl⟩
    · obtain ⟨rfl, hlast⟩ := List.append_inj' hrequests rfl
      obtain ⟨rfl, rfl⟩ := Prod.mk.inj (List.cons.inj hlast).1
      exact .inr hremoves
    · rw [List.concat_eq_append, ← List.cons_append, ← List.append_assoc] at hrequests
      obtain ⟨rfl, -⟩ := List.append_inj' hrequests rfl
      exact .inl ⟨earlier, q', w', later, rfl, hremoves⟩
  · rintro (⟨earlier, q', w', later, rfl, hremoves⟩ | hremoves)
    · exact ⟨earlier, q', w', later ++ [(q, w)], by simp, hremoves⟩
    · exact ⟨requests, q, w, [], rfl, hremoves⟩

namespace Runner

/-- An id that was handed out is registered after some requests exactly if it was registered before them and its root does not leave in
any of them. -/
theorem served_contains {r : Runner β} (hascending : r.Ascending) (hissued : r.Issued) {id : Nat} (hid : id < r.nextId)
    (requests : List (Request β × σ)) :
    (r.served requests).contains id = true ↔ r.contains id = true ∧ ¬LeavesIn id r requests := by
  induction requests using List.reverseRecOn with
  | nil =>
    have hstays : ¬LeavesIn id r ([] : List (Request β × σ)) := by
      rintro ⟨earlier, q, w, later, hrequests, -⟩
      simp at hrequests
    exact (and_iff_left hstays).symm
  | append_singleton requests x ih =>
    obtain ⟨q, w⟩ := x
    obtain ⟨hascending', hissued'⟩ := served_keeps hascending hissued requests
    have hnot : q.issues (r.served requests) w ≠ some id := by
      intro hissues
      have hnext := q.issues_eq _ _ hissues
      have hgrown := (r.handedOut_eq requests).2
      omega
    have hserved : r.served (requests ++ [(q, w)]) = (q.serve (r.served requests) w).1 := served_append r requests [(q, w)]
    rw [leavesIn_concat, hserved, Request.serve_contains hascending' hissued' id, or_iff_left hnot, ih, not_or, and_assoc]

/-! ## Cancelling one after another -/

/-- Cancels some ids one after another. -/
def cancelEach (r : Runner β) : List Nat → σ → Runner β × σ
  | [], w => (r, w)
  | id :: ids, w => cancelEach (r.cancel id w).2.1 ids (r.cancel id w).2.2

/-- Where every registered id is cancelled, each root is retired once, in the order of the registry. -/
theorem cancelEach_eq {r : Runner β} {ids : List Nat} (hids : ids.Nodup) (h : r.ids.Sublist ids) (w : σ) :
    r.cancelEach ids w = (⟨[], r.nextId⟩, r.roots.foldl (fun w x => retire x.2 w) w) := by
  induction ids generalizing r w with
  | nil =>
    obtain ⟨roots, nextId⟩ := r
    obtain rfl : roots = [] := List.map_eq_nil_iff.mp (List.sublist_nil.mp h)
    rfl
  | cons id ids ih =>
    obtain ⟨hnew, hlater⟩ := List.nodup_cons.mp hids
    rcases List.sublist_cons_iff.mp h with hrest | ⟨rest, hhead, hrest⟩
    · -- The root of this id has left before.
      have hgone : r.contains id = false := by
        rw [← Bool.not_eq_true, contains_iff_mem]
        exact fun hid => hnew (hrest.subset hid)
      have hcancel := (r.cancel_registry id w).2.1 hgone
      rw [cancelEach, hcancel]
      exact ih hlater hrest w
    · obtain ⟨_ | ⟨⟨id', b⟩, roots⟩, nextId⟩ := r
      · nomatch hhead
      obtain ⟨rfl, rfl⟩ := List.cons_eq_cons.mp hhead
      have hcancel : cancel ⟨(id', b) :: roots, nextId⟩ id' w = (true, ⟨roots, nextId⟩, retire b w) := by simp [cancel]
      rw [cancelEach, hcancel]
      exact ih (r := ⟨roots, nextId⟩) hlater hrest (retire b w)

/-- What roots receive that are retired one after another. -/
theorem retire_observed (roots : List (Nat × β)) (w : σ) (log : List (Nat × Event)) :
    (observeRoots roots).foldl (fun o x => retire x.2 o) (⟨w, log⟩ : Observation Nat σ) =
      ⟨roots.foldl (fun w x => retire x.2 w) w, log ++ roots.flatMap fun x => [(x.1, .exit), (x.1, .destroy)]⟩ := by
  induction roots generalizing w log with
  | nil => simp [observeRoots]
  | cons x roots ih =>
    have hhead : retire (⟨x.1, x.2⟩ : Observed Nat β) (⟨w, log⟩ : Observation Nat σ) =
        ⟨retire x.2 w, log ++ [(x.1, .exit), (x.1, .destroy)]⟩ := by
      rw [List.append_cons]
      rfl
    change (observeRoots roots).foldl _ (retire (⟨x.1, x.2⟩ : Observed Nat β) ⟨w, log⟩) = _
    rw [hhead, ih, List.flatMap_cons, List.append_assoc, List.foldl_cons]

end Runner

end

end BlockScript
