import BlockScript.Block.Primitive
import Mathlib.Data.Nat.Find

/-!
# Timetables

A root made of sequences goes through its leaves by a timetable: each leaf ends in the first tick after the one that ended its
predecessor in which it is ready. `Timetable` says so of any jobs with a condition of readiness, `ReadyAt` says when a built-in leaf is
ready, and `CallsAt` which calls a timetable has for a tick. `Waiting` is what a timetable knows of the leaf whose turn it is: the next
tick ends it exactly if it is then ready (`Waiting.ends_iff`), and no other leaf makes a call in that tick (`Waiting.mem_callsOf_iff`).
-/

namespace BlockScript

section

variable {ι : Type u} {ready : ι → Nat → Nat → Prop}

/-- The times at which jobs end that are done one after another from a time on: each ends at the first time after its predecessor at
which it is ready, that is ready at that time given the time at which its predecessor ended. Where a job is never ready there are no
more times. -/
inductive Timetable (ready : ι → Nat → Nat → Prop) : Nat → List ι → List Nat → Prop where
  | finished (s : Nat) : Timetable ready s [] []
  | stuck {s : Nat} {x : ι} {xs : List ι} : (∀ t, s < t → ¬ready x s t) → Timetable ready s (x :: xs) []
  | next {s t : Nat} {x : ι} {xs : List ι} {times : List Nat} : s < t → ready x s t → (∀ u, s < u → u < t → ¬ready x s u) →
      Timetable ready t xs times → Timetable ready s (x :: xs) (t :: times)

/-- There is always a timetable, as far as the items get ready. -/
theorem exists_timetable (ready : ι → Nat → Nat → Prop) (s : Nat) (xs : List ι) : ∃ times, Timetable ready s xs times := by
  classical
  induction xs generalizing s with
  | nil => exact ⟨[], .finished s⟩
  | cons x xs ih =>
    by_cases h : ∃ t, s < t ∧ ready x s t
    · obtain ⟨hlt, hready⟩ := Nat.find_spec h
      obtain ⟨times, htimes⟩ := ih (Nat.find h)
      exact ⟨Nat.find h :: times, .next hlt hready (fun u hu hu' hnot => Nat.find_min h hu' ⟨hu, hnot⟩) htimes⟩
    · exact ⟨[], .stuck fun t hlt hready => h ⟨t, hlt, hready⟩⟩

namespace Timetable

variable {s : Nat} {xs : List ι} {times : List Nat}

/-- Jobs have one timetable from a time on. -/
theorem unique (h : Timetable ready s xs times) {times' : List Nat} (h' : Timetable ready s xs times') : times = times' := by
  induction h generalizing times' with
  | finished =>
    cases h'
    rfl
  | stuck hnever =>
    cases h' with
    | stuck => rfl
    | next hlt hready => exact absurd hready (hnever _ hlt)
  | @next s t x xs times hlt hready hfirst _ ih =>
    cases h' with
    | stuck hnever => exact absurd hready (hnever t hlt)
    | @next _ t' _ _ times' hlt' hready' hfirst' hrest' =>
      obtain rfl : t = t' := by
        rcases Nat.lt_trichotomy t t' with h | h | h
        · exact absurd hready (hfirst' t hlt h)
        · exact h
        · exact absurd hready' (hfirst t' hlt' h)
      rw [ih hrest']

theorem length_le (h : Timetable ready s xs times) : times.length ≤ xs.length := by
  induction h with
  | finished => exact Nat.le_refl _
  | stuck => exact Nat.zero_le _
  | next _ _ _ _ ih => exact Nat.succ_le_succ ih

/-- The times of a timetable ascend. -/
theorem ascending (h : Timetable ready s xs times) : (s :: times).Pairwise (· < ·) := by
  induction h with
  | finished | stuck => exact List.pairwise_singleton _ _
  | @next s t x xs times hlt _ _ _ ih =>
    refine List.pairwise_cons.mpr ⟨fun u hu => ?_, ih⟩
    rcases List.mem_cons.mp hu with rfl | hu
    · exact hlt
    · exact Nat.lt_trans hlt (List.rel_of_pairwise_cons ih hu)

/-- Later jobs end later. -/
theorem lt (h : Timetable ready s xs times) {i j a b : Nat} (hij : i < j) (ha : (s :: times)[i]? = some a)
    (hb : (s :: times)[j]? = some b) : a < b := by
  obtain ⟨hi, rfl⟩ := List.getElem?_eq_some_iff.mp ha
  obtain ⟨hj, rfl⟩ := List.getElem?_eq_some_iff.mp hb
  exact List.pairwise_iff_getElem.mp h.ascending i j hi hj hij

/-- A later item has no earlier time. -/
theorem le (h : Timetable ready s xs times) {i j a b : Nat} (hij : i ≤ j) (ha : (s :: times)[i]? = some a)
    (hb : (s :: times)[j]? = some b) : a ≤ b := by
  rcases Nat.lt_or_eq_of_le hij with hij | rfl
  · exact Nat.le_of_lt (h.lt hij ha hb)
  · exact Nat.le_of_eq (Option.some.inj (ha.symm.trans hb))

/-- A job whose predecessor ended at `a` ends at the first time after that at which it is ready. -/
theorem ends_first (h : Timetable ready s xs times) {j a : Nat} {x : ι} (ha : (s :: times)[j]? = some a) (hx : xs[j]? = some x)
    (t : Nat) : times[j]? = some t ↔ a < t ∧ ready x a t ∧ ∀ u, a < u → u < t → ¬ready x a u := by
  induction h generalizing j a with
  | finished => nomatch hx
  | @stuck s y ys hnever =>
    cases j with
    | zero =>
      obtain rfl : s = a := by simpa using ha
      obtain rfl : y = x := by simpa using hx
      exact ⟨nofun, fun ⟨hlt, hready, _⟩ => absurd hready (hnever t hlt)⟩
    | succ j => simp at ha
  | @next s b y ys times hlt hready hfirst _ ih =>
    cases j with
    | zero =>
      obtain rfl : s = a := by simpa using ha
      obtain rfl : y = x := by simpa using hx
      constructor
      · intro ht
        obtain rfl : b = t := by simpa using ht
        exact ⟨hlt, hready, hfirst⟩
      · rintro ⟨hlt', hready', hfirst'⟩
        have hbt : b = t := by
          rcases Nat.lt_trichotomy b t with h | h | h
          · exact absurd hready (hfirst' b hlt h)
          · exact h
          · exact absurd hready' (hfirst t hlt' h)
        simp [hbt]
    | succ j =>
      rw [List.getElem?_cons_succ] at ha hx ⊢
      exact ih ha hx

end Timetable

end

section

variable {σ : Type v}

/-- Whether a leaf whose predecessor ended in tick `s` is ready in tick `t`, in terms of the clock in each tick and of the world that
the tick finds: a wait when its duration has passed since tick `s`, a condition when its test answers true. -/
def ReadyAt (clock : Nat → Float) (worlds : Nat → σ) (item : Option (Primitive σ)) (s t : Nat) : Prop :=
  match item with
  | some (.wait duration _ _ _) => clock s + duration ≤ clock t
  | some (.condition test _) => (test (worlds t)).1 = true
  | _ => True

/-- The numbers that leaf `i` adds to the list of calls when it is run. -/
def callsOf (i : Nat) : Option (Primitive σ) → List Nat
  | some (.execute _ _) => [i]
  | some (.condition _ _) => [i]
  | _ => []

/-- No call of an item is made twice in a tick. -/
theorem nodup_callsOf (i : Nat) (item : Option (Primitive σ)) : (callsOf i item).Nodup := by
  unfold callsOf
  split <;> simp

variable {clock : Nat → Float} {worlds : Nat → σ} {item : Option (Primitive σ)} {s : Nat}

/-- Whether place `i` calls its callback or polls its test in a tick: a callback is called in the tick in which its leaf ends, and a
test is polled in every tick from the one after the predecessor ended up to the one in which its leaf ends. -/
def CallsAt (items : List (Option (Primitive σ))) (times : List Nat) (i t : Nat) : Prop :=
  match items[i]? with
  | some (some (.execute _ _)) => times[i]? = some t
  | some (some (.condition _ _)) => (∃ s, (0 :: times)[i]? = some s ∧ s < t) ∧ ∀ u, times[i]? = some u → t ≤ u
  | _ => False

variable {items : List (Option (Primitive σ))} {times : List Nat} {j m : Nat}

/-- The place that a root stands at after `m` visits: its predecessor has ended, and it has not been ready since. -/
structure Waiting (clock : Nat → Float) (worlds : Nat → σ) (items : List (Option (Primitive σ))) (times : List Nat) (m j s : Nat)
    (item : Option (Primitive σ)) : Prop where
  place : items[j]? = some item
  began : (0 :: times)[j]? = some s
  past : s ≤ m
  waiting : ∀ u, s < u → u ≤ m → ¬ReadyAt clock worlds item s u

namespace Waiting

variable (htimes : Timetable (ReadyAt clock worlds) 0 items times) (h : Waiting clock worlds items times m j s item)

include htimes h

/-- The times from the present item on are still to come. -/
theorem ahead {t : Nat} (ht : times[j]? = some t) : m < t := by
  obtain ⟨hlt, hready, -⟩ := (htimes.ends_first h.began h.place t).mp ht
  exact Nat.lt_of_not_le fun hle => h.waiting t hlt hle hready

/-- It ends in the next tick if it is then ready. -/
theorem ends_iff : times[j]? = some (m + 1) ↔ ReadyAt clock worlds item s (m + 1) := by
  rw [htimes.ends_first h.began h.place]
  constructor
  · rintro ⟨-, hready, -⟩
    exact hready
  · intro hready
    exact ⟨Nat.lt_succ_of_le h.past, hready, fun u hu hu' => h.waiting u hu (Nat.le_of_lt_succ hu')⟩

omit htimes in
/-- A leaf that is not ready in the next tick is still the one whose turn it is. -/
theorem stay (hready : ¬ReadyAt clock worlds item s (m + 1)) : Waiting clock worlds items times (m + 1) j s item := by
  refine { h with past := Nat.le_succ_of_le h.past, waiting := fun u hu hu' => ?_ }
  rcases Nat.lt_or_eq_of_le hu' with hlt | rfl
  · exact h.waiting u hu (Nat.le_of_lt_succ hlt)
  · exact hready

/-- After a leaf that is ready it is the turn of the one after it. -/
theorem next (hready : ReadyAt clock worlds item s (m + 1)) {item' : Option (Primitive σ)} (hplace : items[j + 1]? = some item') :
    Waiting clock worlds items times (m + 1) (j + 1) (m + 1) item' :=
  ⟨hplace, (h.ends_iff htimes).mpr hready, Nat.le_refl _, fun _ hu hu' => absurd hu (Nat.not_lt.mpr hu')⟩

/-- Once the last leaf is ready all have ended. -/
theorem last (hready : ReadyAt clock worlds item s (m + 1)) (hlast : items.length ≤ j + 1) :
    times.length = items.length ∧ ∀ t ∈ times, t ≤ m + 1 := by
  have hends : times[j]? = some (m + 1) := (h.ends_iff htimes).mpr hready
  have hj : j < times.length := (List.getElem?_eq_some_iff.mp hends).1
  have hall : times.length = items.length := Nat.le_antisymm htimes.length_le (Nat.le_trans hlast hj)
  refine ⟨hall, fun t ht => ?_⟩
  obtain ⟨i, hi⟩ := List.mem_iff_getElem?.mp ht
  have hij : i ≤ j := by
    have hbound := (List.getElem?_eq_some_iff.mp hi).1
    omega
  exact htimes.le (Nat.succ_le_succ hij) (by rwa [List.getElem?_cons_succ]) (by rwa [List.getElem?_cons_succ])

/-- The leaves before it have ended, and no leaf from it on has. -/
theorem done_iff (i : Nat) : i < j ↔ ∃ t, times[i]? = some t ∧ t ≤ m := by
  have hbound : j < times.length + 1 := (List.getElem?_eq_some_iff.mp h.began).1
  constructor
  · intro hij
    have hi : i < times.length := Nat.lt_of_lt_of_le hij (Nat.le_of_lt_succ hbound)
    have hget : times[i]? = some times[i] := List.getElem?_eq_getElem hi
    exact ⟨times[i], hget, Nat.le_trans (htimes.le hij (by rwa [List.getElem?_cons_succ]) h.began) h.past⟩
  · rintro ⟨t, ht, hle⟩
    by_contra hge
    have hj : j < times.length := Nat.lt_of_le_of_lt (Nat.not_lt.mp hge) (List.getElem?_eq_some_iff.mp ht).1
    have hget : times[j]? = some times[j] := List.getElem?_eq_getElem hj
    have hnext : times[j] ≤ t :=
      htimes.le (Nat.succ_le_succ (Nat.not_lt.mp hge)) (by rwa [List.getElem?_cons_succ]) (by rwa [List.getElem?_cons_succ])
    exact absurd (h.ahead htimes hget) (Nat.not_lt.mpr (Nat.le_trans hnext hle))

/-- No leaf after it has begun. -/
theorem not_begun {i t : Nat} (hij : j < i) (ht : (0 :: times)[i]? = some t) : m < t := by
  have hi : i < times.length + 1 := (List.getElem?_eq_some_iff.mp ht).1
  have hget : times[j]? = some times[j] := List.getElem?_eq_getElem (by omega)
  have hlater : times[j] ≤ t := htimes.le (i := j + 1) hij (by rwa [List.getElem?_cons_succ]) ht
  exact Nat.lt_of_lt_of_le (h.ahead htimes hget) hlater

/-- In the next tick no other leaf makes a call. -/
theorem eq_of_callsAt {i : Nat} (hcalls : CallsAt items times i (m + 1)) : i = j := by
  have hearlier : i < j → ∃ t, times[i]? = some t ∧ t ≤ m := (h.done_iff htimes i).mp
  unfold CallsAt at hcalls
  split at hcalls
  · -- The leaf would end in that tick.
    rcases Nat.lt_trichotomy i j with hij | hij | hij
    · obtain ⟨t, ht, hle⟩ := hearlier hij
      obtain rfl : m + 1 = t := Option.some.inj (hcalls.symm.trans ht)
      omega
    · exact hij
    · have hi : i < times.length := (List.getElem?_eq_some_iff.mp hcalls).1
      obtain ⟨t, hbegan⟩ : ∃ t, (0 :: times)[i]? = some t := ⟨_, List.getElem?_eq_getElem (Nat.lt_succ_of_lt hi)⟩
      have hlate := h.not_begun htimes hij hbegan
      have hearly := htimes.lt (Nat.lt_succ_self i) hbegan (by rwa [List.getElem?_cons_succ])
      omega
  · -- The leaf would have begun before and not ended yet.
    obtain ⟨⟨t, ht, hlt⟩, hends⟩ := hcalls
    rcases Nat.lt_trichotomy i j with hij | hij | hij
    · obtain ⟨u, hu, hle⟩ := hearlier hij
      have hlate := hends u hu
      omega
    · exact hij
    · have hlate := h.not_begun htimes hij ht
      omega
  · nomatch hcalls

/-- In the next tick it makes its call, and no other leaf makes one. -/
theorem mem_callsOf_iff (i : Nat) : i ∈ callsOf j item ↔ CallsAt items times i (m + 1) := by
  have hplace := h.place
  have hends := h.ends_iff htimes
  by_cases hij : i = j
  · subst hij
    unfold CallsAt
    rw [hplace]
    match item with
    | none => simp [callsOf]
    | some (.execute _ _) => simpa [callsOf] using hends.mpr trivial
    | some (.wait _ _ _ _) => simp [callsOf]
    | some (.condition _ _) =>
      have hlate : ∀ u, times[i]? = some u → m + 1 ≤ u := fun u hu => h.ahead htimes hu
      exact iff_of_true (List.mem_singleton.mpr rfl) ⟨⟨s, h.began, Nat.lt_succ_of_le h.past⟩, hlate⟩
  · refine iff_of_false (fun hmem => hij ?_) fun hcalls => hij (h.eq_of_callsAt htimes hcalls)
    unfold callsOf at hmem
    split at hmem
    · exact List.mem_singleton.mp hmem
    · exact List.mem_singleton.mp hmem
    · nomatch hmem

end Waiting

end

end BlockScript
