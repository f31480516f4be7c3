import BlockScript.Proofs.Block.Line
import BlockScript.Proofs.Block.Lockstep
import BlockScript.Proofs.Runner.Tenure
import BlockScript.Proofs.Runner.Timetable
import Mathlib.Data.List.Forall2

/-!
# The schedule of a tree of sequences

`straight_schedule` shows that a root made of sequences keeps to the timetable of its leaves, whatever else is in the runner and
whatever happens between the ticks. One visit keeps to it (`Progress.visit`): it runs the leaf whose turn it is, and if that ends it
enters the next one, which is not run before the next visit. How often callbacks and tests are called is told in worlds that count it:
`Primitive.Notes` says that a leaf notes its calls.
-/

namespace BlockScript

section

variable {σ : Type v}

/-- In worlds with `I` nothing that a leaf calls fails, its clock reads the given time, and nothing that it calls breaks `I`. -/
def Primitive.Punctual (I : σ → Prop) (time : Float) : Primitive σ → Prop
  | execute callback _ => ∀ w, I w → (callback w).1 = .ok () ∧ I (callback w).2
  | wait _ _ _ handle => ∀ w, I w → (handle.currentTime w).1 = .ok time ∧ I (handle.currentTime w).2
  | condition test _ => ∀ w, I w → I (test w).2

/-- The world keeps a list of calls, and a leaf adds its number there each time it calls its callback or polls its test. -/
def Primitive.Notes (calls : σ → List Nat) (i : Nat) : Primitive σ → Prop
  | execute callback _ => ∀ w, calls (callback w).2 = calls w ++ [i]
  | wait _ _ _ handle => ∀ w, calls (handle.currentTime w).2 = calls w
  | condition test _ => ∀ w, calls (test w).2 = calls w ++ [i]

variable {clock : Nat → Float} {worlds : Nat → σ} {item : Option (Primitive σ)} {s : Nat}

/-- A leaf as it is after it was entered in tick `s` and found busy in some ticks since. -/
inductive Current (clock : Nat → Float) : Option (Primitive σ) → Nat → Option (Primitive σ) → Prop where
  | empty (s : Nat) : Current clock none s none
  | execute (callback : σ → Outcome × σ) (executed : Bool) (s : Nat) :
      Current clock (some (.execute callback executed)) s (some (.execute callback false))
  | wait (duration start now start' now' : Float) (handle : ActionsHandle σ) {s : Nat} : start' = clock s →
      Current clock (some (.wait duration start now handle)) s (some (.wait duration start' now' handle))
  | condition (test : σ → Bool × σ) (result result' : Bool) (s : Nat) :
      Current clock (some (.condition test result)) s (some (.condition test result'))

/-- What the activation changed in the leaf is at most what a leaf keeps for itself. -/
theorem Current.akin {x : Option (Primitive σ)} (h : Current clock item s x) : Option.Rel Primitive.Akin x item := by
  cases h with
  | empty => exact .none
  | execute callback executed => exact .some (.execute _ _ _)
  | wait => exact .some (.wait _ _ _ _ _ _)
  | condition => exact .some (.condition _ _ _)

section

variable {I : σ → Prop} {w : σ}

/-- Entering a leaf calls neither a callback nor a test. -/
theorem enter_current (hitem : ∀ b, item = some b → b.Punctual I (clock s)) (hw : I w) :
    ∃ x w', Block.enter item w = (.ok (), x, w') ∧ I w' ∧ Current clock item s x ∧
      ∀ calls i, (∀ b, item = some b → b.Notes calls i) → calls w' = calls w := by
  match item with
  | none => exact ⟨none, w, rfl, hw, .empty s, fun _ _ _ => rfl⟩
  | some (.execute callback executed) => exact ⟨_, w, rfl, hw, .execute callback executed s, fun _ _ _ => rfl⟩
  | some (.condition test result) => exact ⟨_, w, rfl, hw, .condition test result false s, fun _ _ _ => rfl⟩
  | some (.wait duration start now handle) =>
    obtain ⟨hread, hkept⟩ := hitem _ rfl w hw
    refine ⟨_, (handle.currentTime w).2, ?_, hkept, .wait duration start now (clock s) (clock s) handle rfl,
      fun calls i hnotes => hnotes _ rfl w⟩
    rcases hr : handle.currentTime w with ⟨r, w'⟩
    obtain rfl : r = .ok (clock s) := by rw [← hread, hr]
    simp [Block.enter, Primitive.enter, hr]

/-- A tick of a leaf: it makes its one call, and is then complete if it was ready. -/
theorem Current.run {t : Nat} {x : Option (Primitive σ)} (h : Current clock item s x)
    (hitem : ∀ b, item = some b → b.Punctual I (clock t)) (hw : I w) (hworld : w = worlds t) (dt : Float) :
    ∃ x' w', Block.run dt x w = (.ok (), x', w') ∧ I w' ∧
      (Block.isComplete x' w' = true ↔ ReadyAt clock worlds item s t) ∧
      (Block.isComplete x' w' = false → Current clock item s x') ∧
      ∀ calls i, (∀ b, item = some b → b.Notes calls i) → calls w' = calls w ++ callsOf i item := by
  cases h with
  | empty =>
    exact ⟨none, w, rfl, hw, ⟨fun _ => trivial, fun _ => rfl⟩, nofun, fun _ _ _ => (List.append_nil _).symm⟩
  | execute callback executed =>
    obtain ⟨hok, hkept⟩ := hitem _ rfl w hw
    refine ⟨some (.execute callback true), (callback w).2, ?_, hkept, ⟨fun _ => trivial, fun _ => rfl⟩, nofun,
      fun calls i hnotes => hnotes _ rfl w⟩
    simp [Block.run, Primitive.run, hok]
  | condition test result result' =>
    have hkept := hitem _ rfl w hw
    refine ⟨some (.condition test (test w).1), (test w).2, rfl, hkept, ?_, fun _ => .condition test result _ s,
      fun calls i hnotes => hnotes _ rfl w⟩
    rw [hworld]
    exact Iff.rfl
  | wait duration start now start' now' handle hstart =>
    obtain ⟨hread, hkept⟩ := hitem _ rfl w hw
    refine ⟨some (.wait duration start' (clock t) handle), (handle.currentTime w).2, ?_, hkept, ?_,
      fun _ => .wait duration start now start' (clock t) handle hstart,
      fun calls i hnotes => (hnotes _ rfl w).trans (List.append_nil _).symm⟩
    · rcases hr : handle.currentTime w with ⟨r, w'⟩
      obtain rfl : r = .ok (clock t) := by rw [← hread, hr]
      simp [Block.run, Primitive.run, hr]
    · subst hstart
      exact decide_eq_true_iff

end

variable {items : List (Option (Primitive σ))} {times : List Nat} {m : Nat}

/-- What a root is after `m` visits by a timetable. -/
inductive Progress (clock : Nat → Float) (worlds : Nat → σ) (items : List (Option (Primitive σ))) (times : List Nat) (m : Nat) :
    Option (BuiltIn σ) → Prop where
  /-- The root stands at a leaf. -/
  | underway {t : BuiltIn σ} {j s : Nat} {item x : Option (Primitive σ)} : Waiting clock worlds items times m j s item →
      Current clock item s x → t.Stands x (items.drop (j + 1)) → Progress clock worlds items times m (some t)
  /-- The root has finished, since all leaves have ended. -/
  | finished : times.length = items.length → (∀ t ∈ times, t ≤ m) → Progress clock worlds items times m none

/-- A visit tells from the run of the root alone what becomes of it. -/
theorem Visit.of_run {v : Visit (BuiltIn σ) σ} {dt : Float} {t : BuiltIn σ} {w : σ} (h : v.block.run dt v.world = (.ok (), t, w)) :
    v.outcome dt = .ok () ∧ v.left dt = w ∧ (v.kept dt).map (·.2) = if t.isComplete w then none else some t := by
  have hrun : Block.run dt v.block v.world = (.ok (), t, w) := h
  have hok : v.outcome dt = .ok () := congrArg Prod.fst hrun
  have hafter : v.after dt = t := congrArg (·.2.1) hrun
  have hreached : v.reached dt = w := congrArg (·.2.2) hrun
  refine ⟨hok, (v.left_eq_reached dt).trans hreached, ?_⟩
  have hfinished : v.finished dt = t.isComplete w := by
    rw [v.finished_of_ok dt hok, hafter, hreached]
    rfl
  unfold Visit.kept
  rw [hfinished, hafter]
  split <;> rfl

/-- The leaves note the calls that a timetable has for a tick, and no others, when the world goes from one to another. -/
def NotesCalls (items : List (Option (Primitive σ))) (times : List Nat) (t : Nat) (w w' : σ) : Prop :=
  ∀ calls : σ → List Nat, (∀ i (b : Primitive σ), items[i]? = some (some b) → b.Notes calls i) →
    ∃ made, calls w' = calls w ++ made ∧ made.Nodup ∧ ∀ i, i ∈ made ↔ CallsAt items times i t

variable {I : Nat → σ → Prop}

/-- A visit keeps the root to the timetable. -/
theorem Progress.visit (htimes : Timetable (ReadyAt clock worlds) 0 items times)
    (hitems : ∀ t b, some b ∈ items → b.Punctual (I t) (clock t)) {v : Visit (BuiltIn σ) σ}
    (h : Progress clock worlds items times m (some v.block)) (hworld : v.world = worlds (m + 1))
    (hI : I (m + 1) (worlds (m + 1))) (dt : Float) :
    v.outcome dt = .ok () ∧ Progress clock worlds items times (m + 1) ((v.kept dt).map (·.2)) ∧
      NotesCalls items times (m + 1) v.world (v.left dt) := by
  cases h with
  | @underway _ j s item x hwaiting hcurrent hstands =>
    have hpunctual : ∀ {i : Nat} {item : Option (Primitive σ)}, items[i]? = some item →
        ∀ b, item = some b → b.Punctual (I (m + 1)) (clock (m + 1)) := by
      rintro i _ hplace b rfl
      exact hitems (m + 1) b (List.mem_of_getElem? hplace)
    have hnotes : ∀ {i : Nat} {item : Option (Primitive σ)}, items[i]? = some item → ∀ {calls : σ → List Nat},
        (∀ i (b : Primitive σ), items[i]? = some (some b) → b.Notes calls i) → ∀ b, item = some b → b.Notes calls i := by
      rintro i _ hplace calls hall b rfl
      exact hall i b hplace
    obtain ⟨x', w, hrun, hw, hcomplete, hbusy, hcalls⟩ := hcurrent.run (hpunctual hwaiting.place) (hworld ▸ hI) hworld dt
    have hmade : NotesCalls items times (m + 1) v.world w := fun calls hall =>
      ⟨callsOf j item, hcalls calls j (hnotes hwaiting.place hall), nodup_callsOf j item, hwaiting.mem_callsOf_iff htimes⟩
    by_cases hready : ReadyAt clock worlds item s (m + 1)
    · have hdone := hcomplete.mpr hready
      cases hrest : items.drop (j + 1) with
      | nil =>
        -- It was the last leaf.
        rw [hrest] at hstands
        obtain ⟨t, ht, htdone⟩ := hstands.run_last hrun hdone
        obtain ⟨hok, hleft, hkept⟩ := Visit.of_run ht
        rw [hleft, hkept, if_pos htdone]
        obtain ⟨hall, hpast⟩ := hwaiting.last htimes hready (List.drop_eq_nil_iff.mp hrest)
        exact ⟨hok, .finished hall hpast, hmade⟩
      | cons item' rest =>
        -- The next leaf is entered.
        rw [hrest] at hstands
        obtain ⟨hplace, rfl⟩ := getElem?_of_drop hrest
        obtain ⟨y, w', henter, -, hcurrent', hquiet⟩ := enter_current (s := m + 1) (hpunctual hplace) hw
        obtain ⟨t, ht, htbusy, hstands'⟩ := hstands.run_next hrun hdone henter
        obtain ⟨hok, hleft, hkept⟩ := Visit.of_run ht
        rw [hleft, hkept, htbusy]
        refine ⟨hok, .underway (hwaiting.next htimes hready hplace) hcurrent' hstands', fun calls hall => ?_⟩
        rw [hquiet calls (j + 1) (hnotes hplace hall)]
        exact hmade calls hall
    · -- The leaf is still busy.
      have hstill : Block.isComplete x' w = false := Bool.eq_false_iff.mpr fun hdone => hready (hcomplete.mp hdone)
      obtain ⟨t, ht, htbusy, hstands'⟩ := hstands.run_busy hrun hstill
      obtain ⟨hok, hleft, hkept⟩ := Visit.of_run ht
      rw [hleft, hkept, htbusy]
      exact ⟨hok, .underway (hwaiting.stay hready) (hbusy hstill) hstands', hmade⟩

/-- A visit of a root, with the length of its tick. -/
abbrev RootVisit (σ : Type v) := Float × Visit (BuiltIn σ) σ

/-- A visit that keeps to a timetable: the root does not fail, and the calls of the tick are made and no others. -/
structure Visit.KeepsTo (items : List (Option (Primitive σ))) (times : List Nat) (t : Nat) (dt : Float)
    (v : Visit (BuiltIn σ) σ) : Prop where
  ok : v.outcome dt = .ok ()
  calls : NotesCalls items times t v.world (v.left dt)

/-- A root keeps to the timetable in every visit. -/
theorem Career.progress (htimes : Timetable (ReadyAt clock worlds) 0 items times)
    (hitems : ∀ t b, some b ∈ items → b.Punctual (I t) (clock t)) (hI : ∀ t, I t (worlds t)) {b : BuiltIn σ}
    (hstart : Progress clock worlds items times 0 (some b)) {visits : List (RootVisit σ)} {now : Option (BuiltIn σ)}
    (h : Career b visits now)
    (hworlds : ∀ (k : Nat) (x : RootVisit σ), visits[k]? = some x → x.2.world = worlds (k + 1)) :
    Progress clock worlds items times visits.length now ∧
      ∀ (k : Nat) (x : RootVisit σ), visits[k]? = some x → x.2.KeepsTo items times (k + 1) x.1 := by
  induction h with
  | start => exact ⟨hstart, nofun⟩
  | @visit visits v dt _ ih =>
    obtain ⟨hprogress, hkept⟩ := ih fun k x hk =>
      hworlds k x ((List.getElem?_append_left (List.getElem?_eq_some_iff.mp hk).1).trans hk)
    have hworld : v.world = worlds (visits.length + 1) := hworlds visits.length (dt, v) (by simp)
    obtain ⟨hok, hprogress', hcalls⟩ := hprogress.visit htimes hitems hworld (hI _) dt
    refine ⟨by simpa using hprogress', fun k x hk => ?_⟩
    rcases Nat.lt_trichotomy k visits.length with hlt | rfl | hgt
    · exact hkept k x (by rwa [List.getElem?_append_left hlt] at hk)
    · obtain rfl : (dt, v) = x := by simpa using hk
      exact ⟨hok, hcalls⟩
    · rw [List.getElem?_eq_none (by simpa using Nat.succ_le_of_lt hgt)] at hk
      nomatch hk

/-- The leaves that the root with an id has still to finish; none if there is no such root. -/
def Runner.ahead {α : Type u} (r : Runner (Tree α σ)) (id : Nat) : List (Option α) := (r.under id).flatMap (·.2.ahead)

/-- What a runner holds of a root after `m` visits by a timetable. The leaves that have ended by then are done and the others are still
ahead in their order; the root is in the runner until the last of them has ended. -/
structure Runner.OnSchedule (r : Runner (BuiltIn σ)) (id : Nat) (items : List (Option (Primitive σ))) (times : List Nat) (m : Nat) :
    Prop where
  ahead : ∃ ended, (∀ i, i < ended ↔ ∃ u, times[i]? = some u ∧ u ≤ m) ∧
    List.Forall₂ (Option.Rel Primitive.Akin) (r.ahead id) (items.drop ended)
  contains : r.contains id = false ↔ ∃ u, times[items.length - 1]? = some u ∧ u ≤ m

/-- How far a root has come tells what the runner holds of it. -/
theorem Progress.onSchedule (htimes : Timetable (ReadyAt clock worlds) 0 items times) (hitems : items ≠ []) {now : Option (BuiltIn σ)}
    (h : Progress clock worlds items times m now) {r : Runner (BuiltIn σ)} {id : Nat} (hroot : r.under id = (now.map (id, ·)).toList) :
    r.OnSchedule id items times m := by
  have hpos : 0 < items.length := List.length_pos_iff.mpr hitems
  cases h with
  | @underway t j s item x hwaiting hcurrent hstands =>
    have hj : j < items.length := (List.getElem?_eq_some_iff.mp hwaiting.place).1
    have hthere : r.contains id = true := (r.contains_iff id).mpr (by simp [hroot])
    refine ⟨⟨j, hwaiting.done_iff htimes, ?_⟩, ?_⟩
    · have hhere : items[j] = item := Option.some.inj ((List.getElem?_eq_getElem hj).symm.trans hwaiting.place)
      have hahead : r.ahead id = x :: items.drop (j + 1) := by simp [Runner.ahead, hroot, hstands.ahead_eq]
      rw [hahead, List.drop_eq_getElem_cons hj, hhere]
      refine .cons hcurrent.akin (List.forall₂_same.mpr fun y _ => ?_)
      cases y with
      | none => exact .none
      | some b => exact .some (.refl b)
    · rw [hthere, ← hwaiting.done_iff htimes]
      exact iff_of_false nofun (by omega)
  | finished hall hpast =>
    have hended : ∀ i, i < items.length ↔ ∃ u, times[i]? = some u ∧ u ≤ m := by
      intro i
      constructor
      · intro hi
        have hi' : i < times.length := hall.symm ▸ hi
        exact ⟨times[i], List.getElem?_eq_getElem hi', hpast _ (List.getElem_mem hi')⟩
      · rintro ⟨u, hu, -⟩
        exact hall ▸ (List.getElem?_eq_some_iff.mp hu).1
    have hgone : ¬r.contains id = true := fun hthere => (r.contains_iff id).mp hthere (by simp [hroot])
    refine ⟨⟨items.length, hended, by simp [Runner.ahead, hroot]⟩, ?_⟩
    rw [← hended]
    exact iff_of_true (Bool.eq_false_iff.mpr hgone) (Nat.sub_lt hpos Nat.zero_lt_one)

/-- The schedule of a tree of sequences. Registered in a runner, it goes through its leaves by their timetable, counted in the visits
that it receives: it calls nothing when it is registered, its visits make the calls of their ticks and never fail, and after each of them
the leaves are left that have not ended by then. -/
theorem straight_schedule {t : BuiltIn σ} (hstraight : t.Straight) {clock : Nat → Float} {worlds : Nat → σ} {I : Nat → σ → Prop}
    (hitems : ∀ k b, some b ∈ t.line → b.Punctual (I k) (clock k)) (hI : ∀ k, I k (worlds k)) :
    ∃ times, Timetable (ReadyAt clock worlds) 0 t.line times ∧
      ∀ r : Runner (BuiltIn σ), r.Issued →
        (r.add t (worlds 0)).1 = .ok r.nextId ∧
        (∀ calls : σ → List Nat, (∀ i (b : Primitive σ), t.line[i]? = some (some b) → b.Notes calls i) →
          calls (r.add t (worlds 0)).2.2 = calls (worlds 0)) ∧
        ∀ visits r', Tenure r.nextId (r.add t (worlds 0)).2.1 visits r' →
          (∀ (k : Nat) (x : RootVisit σ), visits[k]? = some x → x.2.world = worlds (k + 1)) →
          (∀ (k : Nat) (x : RootVisit σ), visits[k]? = some x → x.2.KeepsTo t.line times (k + 1) x.1) ∧
            r'.OnSchedule r.nextId t.line times visits.length := by
  obtain ⟨times, htimes⟩ := exists_timetable (ReadyAt clock worlds) 0 t.line
  refine ⟨times, htimes, fun r hissued => ?_⟩
  -- Registration enters the first leaf.
  obtain ⟨y, ys, hline, henter⟩ := hstraight.enter_stands
  obtain ⟨hplace, rfl⟩ := getElem?_of_drop (List.drop_zero.trans hline)
  have hfirst : ∀ b, y = some b → b.Punctual (I 0) (clock 0) := by
    rintro b rfl
    exact hitems 0 b (List.mem_of_getElem? hplace)
  obtain ⟨x, w, hx, -, hcurrent, hquiet⟩ := enter_current hfirst (hI 0)
  obtain ⟨u, hu, hstands⟩ := henter _ _ _ hx
  rw [BuiltIn.add_eq hu r]
  refine ⟨rfl, fun calls hnotes => hquiet calls 0 fun b hb => hnotes 0 b (hb ▸ hplace), fun visits r' htenure hworlds => ?_⟩
  have hroot : Runner.under (Runner.mk (r.roots ++ [(r.nextId, u)]) (r.nextId + 1)) r.nextId = [(r.nextId, u)] := by
    have hothers : r.roots.filter (·.1 = r.nextId) = [] := hissued.under_nextId
    rw [Runner.under, List.filter_append, hothers]
    simp
  have hstart : Progress clock worlds t.line times 0 (some u) :=
    .underway ⟨hplace, rfl, Nat.le_refl _, fun u hu hu' => absurd hu (Nat.not_lt.mpr hu')⟩ hcurrent hstands
  obtain ⟨-, now, hcareer, hunder⟩ := htenure.career (Nat.lt_succ_self _) hroot
  obtain ⟨hprogress, hkept⟩ := hcareer.progress htimes hitems hI hstart hworlds
  exact ⟨hkept, hprogress.onSchedule htimes hstraight.line_ne_nil hunder⟩

end

/-- A world with a clock that keeps a list of calls. -/
structure Diary where
  time : Float
  calls : List Nat

namespace Diary

def note (i : Nat) (d : Diary) : Diary := { d with calls := d.calls ++ [i] }

/-- The clock behind a slot that is always filled. -/
def handle : ActionsHandle Diary where
  provider? _ := some { log := fun _ d => d, say := fun _ _ d => d, playSound := fun _ _ d => d, now := fun d => (d.time, d) }
  clear d := d

/-- What each tick finds: the clock goes back once, and from the sixth tick on it is on record that leaf 0 was called. -/
def page (k : Nat) : Diary := ⟨[1.0, 2.0, 1.5, 1.75].getD k 2.0, if k < 6 then [] else [0]⟩

/-- Something to do, nothing to do, and a pause, with a question at the end. -/
def errand : BuiltIn Diary :=
  .ofList [.leaf (.perform (note 0)), .ofList [.ofList [], .leaf (.waitFor handle 0.5)],
    .leaf (.waitUntil fun d => (d.calls.contains 0, note 3 d))]

/-- The runner that the errand is registered with, after some ticks. -/
def errandAfter : Nat → Runner (BuiltIn Diary)
  | 0 => ((∅ : Runner (BuiltIn Diary)).add errand (page 0)).2.1
  | k + 1 => ((errandAfter k).process 0.5 (page (k + 1))).2.1

/-- As long as the errand is registered, every tick visits it in the world that the tick finds. -/
theorem exists_errand_visits (n : Nat) (h : ∀ k < n, (errandAfter k).roots.map (·.1) = [0]) :
    ∃ visits : List (RootVisit Diary), visits.length = n ∧ Tenure 0 (errandAfter 0) visits (errandAfter n) ∧
      ∀ (k : Nat) (x : RootVisit Diary), visits[k]? = some x → x.2.world = page (k + 1) := by
  induction n with
  | zero => exact ⟨[], rfl, .start, nofun⟩
  | succ n ih =>
    obtain ⟨visits, hlength, htenure, hworlds⟩ := ih fun k hk => h k (Nat.lt_succ_of_lt hk)
    obtain ⟨⟨id, b⟩, hroots, rfl⟩ := List.map_eq_singleton_iff.mp (h n (Nat.lt_succ_self n))
    refine ⟨_, by simp [hlength], htenure.tick_alone hroots 0.5 (page (n + 1)), fun k x hx => ?_⟩
    rcases Nat.lt_or_ge k visits.length with hlt | hge
    · exact hworlds k x (by rwa [List.getElem?_append_left hlt] at hx)
    · rw [List.getElem?_append_right hge, List.getElem?_singleton] at hx
      obtain ⟨hk, hvisit⟩ := Option.ite_none_right_eq_some.mp hx
      rw [← Option.some.inj hvisit, show k = n by omega]

end Diary

open Diary in
/-- The errand ends its leaves in the ticks 1, 2, 4 and 6, and leaves the runner in the sixth. -/
theorem straight_schedule_errand : ∃ visits : List (RootVisit Diary), visits.length = 6 ∧
    Tenure 0 ((∅ : Runner (BuiltIn Diary)).add errand (page 0)).2.1 visits (errandAfter 6) ∧
      (∀ (k : Nat) (x : RootVisit Diary), visits[k]? = some x → x.2.world = page (k + 1)) ∧
      Timetable (ReadyAt (fun k => (page k).time) page) 0 errand.line [1, 2, 4, 6] ∧
      (∀ (k : Nat) (x : RootVisit Diary), visits[k]? = some x → x.2.KeepsTo errand.line [1, 2, 4, 6] (k + 1) x.1) ∧
      (errandAfter 6).OnSchedule 0 errand.line [1, 2, 4, 6] 6 ∧ (errandAfter 6).contains 0 = false := by
  have hstraight : errand.Straight := by simp [errand, Tree.ofList]
  have hline : errand.line = [some (.perform (note 0)), none, some (.waitFor handle 0.5),
    some (.waitUntil fun d => (d.calls.contains 0, note 3 d))] := rfl
  have hitems : ∀ k b, some b ∈ errand.line → b.Punctual (fun d => d.time = (page k).time) (page k).time := by
    intro k b hb
    simp only [hline, List.mem_cons, Option.some.injEq, reduceCtorEq, false_or, List.not_mem_nil, or_false] at hb
    rcases hb with rfl | rfl | rfl
    · exact fun w hw => ⟨rfl, hw⟩
    · exact fun w hw => ⟨congrArg Except.ok hw, hw⟩
    · exact fun w hw => hw
  obtain ⟨times, htimes, hschedule⟩ := straight_schedule hstraight hitems fun _ => rfl
  -- The pause begins in the second tick, at 1.5, and in the third it is 1.75.
  have hpause : ∀ u, 2 < u → u < 4 → ¬ReadyAt (fun k => (page k).time) page (some (.waitFor handle 0.5)) 2 u := by
    intro u hu hu'
    obtain rfl : u = 3 := by omega
    exact (by decide : ¬(1.5 : Float) + 0.5 ≤ 1.75)
  have hanswer : ∀ u, 4 < u → u < 6 →
      ¬ReadyAt (fun k => (page k).time) page (some (.waitUntil fun d => (d.calls.contains 0, note 3 d))) 4 u := by
    intro u hu hu'
    obtain rfl : u = 5 := by omega
    exact Bool.false_ne_true
  have htable : Timetable (ReadyAt (fun k => (page k).time) page) 0 errand.line [1, 2, 4, 6] :=
    .next (by decide) trivial (by omega) <| .next (by decide) trivial (by omega) <|
      .next (by decide) (by decide : (1.5 : Float) + 0.5 ≤ 2.0) hpause <| .next (by decide) rfl hanswer <| .finished 6
  obtain rfl := htimes.unique htable
  obtain ⟨visits, hlength, htenure, hworlds⟩ := exists_errand_visits 6 (by decide)
  obtain ⟨-, -, hall⟩ := hschedule ∅ .empty
  obtain ⟨hkept, hafter⟩ := hall visits _ htenure hworlds
  rw [hlength] at hafter
  exact ⟨visits, hlength, htenure, hworlds, htable, hkept, hafter, hafter.contains.mpr ⟨6, rfl, Nat.le_refl 6⟩⟩

end BlockScript
