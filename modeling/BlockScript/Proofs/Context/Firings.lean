import BlockScript.Proofs.Context.Recorders

/-!
# Firings

A block fires where it asks the provider of the moment to act, which reaches the recorder in the slot of its context and no other, or
fails because the slot is empty (`Recording.fire_right`). Firings that follow one another, with nothing between them that a recorder
notices, account for every record (`Balanced.records`). Installing recorders, emptying slots, moving clocks and changing the state beside
the host is not noticed (`Recording.Quiet`).
-/

namespace BlockScript

/-! ## Firings -/

/-- A block asks the provider of the moment to act. -/
structure Firing where
  /-- The context from whose builder the block comes. -/
  owner : Nat
  /-- What the block asks for. -/
  record : ActionRecord
  /-- The number of the recorder in the slot of that context. -/
  holder : Option Nat
  outcome : Outcome
  /-- What every recorder had been asked for before. -/
  before : Nat → List ActionRecord
  /-- What every recorder has been asked for afterwards. -/
  after : Nat → List ActionRecord

namespace Firing

/-- The recorder in the slot, and no other, was asked for this and nothing else, and the block ran well; where the slot was empty, no
recorder was asked for anything, and the block failed. -/
def Right (f : Firing) : Prop :=
  match f.holder with
  | some n => f.outcome = .ok () ∧ f.after = Function.update f.before n (f.before n ++ [f.record])
  | none => f.outcome = .error .actionsNotInitialized ∧ f.after = f.before

/-- What a recorder was asked for. -/
def delivered (n : Nat) (f : Firing) : Option ActionRecord := if f.holder = some n then some f.record else none

/-- Each recorder has what it had before, and what the firing delivered to it. -/
theorem Right.after_eq {f : Firing} (h : f.Right) (n : Nat) : f.after n = f.before n ++ (f.delivered n).toList := by
  unfold Right at h
  unfold delivered
  cases hholder : f.holder with
  | none =>
    rw [hholder] at h
    simp [h.2]
  | some m =>
    rw [hholder] at h
    by_cases hm : m = n
    · subst hm
      simp [h.2]
    · simp [h.2, hm, Ne.symm hm]

end Firing

/-- What the recorders have been asked for changes by firings alone, one after another, each of which is as it should be. -/
def Balanced : (Nat → List ActionRecord) → List Firing → (Nat → List ActionRecord) → Prop
  | start, [], now => now = start
  | start, f :: ledger, now => f.before = start ∧ f.Right ∧ Balanced f.after ledger now

/-- The records of each recorder are those that the firings delivered to it, in their order. -/
theorem Balanced.records {start now : Nat → List ActionRecord} {ledger : List Firing} (h : Balanced start ledger now) (n : Nat) :
    now n = start n ++ ledger.filterMap (·.delivered n) := by
  induction ledger generalizing start with
  | nil =>
    obtain rfl : now = start := h
    simp
  | cons f ledger ih =>
    obtain ⟨rfl, hright, hrest⟩ := h
    rw [ih hrest, hright.after_eq, List.append_assoc]
    cases hf : f.delivered n <;> simp [hf]

/-- What is balanced stays so where one more firing is entered. -/
theorem Balanced.concat {start now : Nat → List ActionRecord} {ledger : List Firing} (h : Balanced start ledger now) {f : Firing}
    (hbefore : f.before = now) (hright : f.Right) : Balanced start (ledger ++ [f]) f.after := by
  induction ledger generalizing start with
  | nil =>
    obtain rfl : now = start := h
    exact ⟨hbefore, hright, rfl⟩
  | cons g ledger ih =>
    obtain ⟨hstart, hright', hrest⟩ := h
    exact ⟨hstart, hright', ih hrest⟩

/-! ## Firing on a recording host -/

namespace Recording

variable {ρ : Type}

/-- What every recorder has been asked for, in order. -/
def records (w : Recording ρ) (n : Nat) : List ActionRecord := (w.recorder n).records.toList

/-- The recorders in the slots and the contexts' own recorders are there. -/
structure Sound (w : Recording ρ) : Prop where
  slot : ∀ i n, w.slot i = some n → n < w.recorders.size
  current : ∀ i, i < w.slots.size → w.currentOf i < w.recorders.size

/-- Pushing to a recorder adds to its records and to no others. -/
theorem records_push {w : Recording ρ} {n : Nat} (hn : n < w.recorders.size) (record : ActionRecord) :
    (w.modifyRecorder n (·.push record)).records = Function.update w.records n (w.records n ++ [record]) := by
  funext m
  rw [records, recorder_modifyRecorder w m _ hn]
  by_cases hm : m = n
  · subst hm
    simp [Recorder.push, records]
  · simp [hm, records]

/-- A block of a context fires: what is seen of it, and the world that it leaves. -/
def fire (owner : Nat) (record : ActionRecord) (w : Recording ρ) : Firing × Recording ρ :=
  let (outcome, v) := (handle owner).act record.request w
  (⟨owner, record, w.slot owner, outcome, w.records, v.records⟩, v)

/-- Every firing is as it should be. -/
theorem fire_right {w : Recording ρ} (h : w.Sound) (owner : Nat) (record : ActionRecord) : (fire owner record w).1.Right := by
  cases hn : w.slot owner with
  | none =>
    simp only [fire, act_none hn, Firing.Right, hn]
    exact ⟨trivial, trivial⟩
  | some n =>
    simp only [fire, act_some hn, Firing.Right, hn]
    exact ⟨trivial, records_push (h.slot owner n hn) record⟩

/-- Recorders stay where they are needed when a block fires. -/
theorem Sound.fire {w : Recording ρ} (h : w.Sound) (owner : Nat) (record : ActionRecord) : (fire owner record w).2.Sound := by
  cases hn : w.slot owner with
  | none => simpa only [Recording.fire, act_none hn] using h
  | some n =>
    simp only [Recording.fire, act_some hn]
    exact ⟨fun i m hm => size_modifyRecorder w n _ ▸ h.slot i m hm, fun i hi => size_modifyRecorder w n _ ▸ h.current i hi⟩

/-! ## Changes that no recorder notices -/

/-- What keeps the recorders where they are needed, and their records. -/
def Quiet (change : Recording ρ → Recording ρ) : Prop := ∀ w, w.Sound → (change w).Sound ∧ (change w).records = w.records

/-- A new host has the recorders that it needs. -/
theorem sound_new (size : Nat) (installed : Bool) (state : ρ) : (new size installed state).Sound where
  slot i n hn := by
    obtain ⟨rfl, hi⟩ := slot_new_eq hn
    rwa [size_new]
  current i hi := by
    have hi' : i < size := by simpa [new] using hi
    rwa [currentOf_new hi', size_new]

/-- Emptying a slot is not noticed. -/
theorem quiet_clear (i : Nat) : Quiet ((handle i).clear : Recording ρ → Recording ρ) := by
  refine fun w h => ⟨⟨fun j n hn => ?_, fun j hj => h.current j (slots_size_clear w i ▸ hj)⟩, rfl⟩
  rw [slot_clear] at hn
  by_cases hj : j = i
  · rw [if_pos hj] at hn
    nomatch hn
  · rw [if_neg hj] at hn
    exact h.slot j n hn

/-- Installing a context's own recorder is not noticed. -/
theorem quiet_install (i : Nat) : Quiet (install i : Recording ρ → Recording ρ) := by
  refine fun w h => ⟨⟨fun j n hn => ?_, fun j hj => h.current j (slots_size_install w i ▸ hj)⟩, rfl⟩
  rw [slot_install] at hn
  by_cases hj : j = i ∧ i < w.slots.size
  · rw [if_pos hj] at hn
    obtain rfl := Option.some.inj hn
    exact h.current i hj.2
  · rw [if_neg hj] at hn
    exact h.slot j n hn

/-- It is not noticed that a context gets a new recorder. -/
theorem quiet_renew (i : Nat) : Quiet (renew · i : Recording ρ → Recording ρ) := by
  refine fun w h => ⟨⟨fun j n hn => ?_, fun j hj => ?_⟩, ?_⟩
  · exact size_renew w i ▸ Nat.lt_succ_of_lt (h.slot j n hn)
  · rw [currentOf_renew, size_renew]
    by_cases hi : j = i ∧ i < w.current.size
    · rw [if_pos hi]
      exact Nat.lt_succ_self _
    · rw [if_neg hi]
      exact Nat.lt_succ_of_lt (h.current j hj)
  · funext n
    rw [records, recorder_renew, records]

/-- A new recorder that is installed starts without records, and no other recorder notices. -/
theorem quiet_installNew (i : Nat) : Quiet (installNew i : Recording ρ → Recording ρ) := by
  intro w h
  rw [installNew_eq]
  obtain ⟨hsound, hrecords⟩ := quiet_renew i w h
  obtain ⟨hsound', hrecords'⟩ := quiet_install i _ hsound
  exact ⟨hsound', hrecords'.trans hrecords⟩

/-- A change to a recorder that leaves its records, as where its clock is moved. -/
theorem quiet_modifyRecorder (number : Recording ρ → Nat) {f : Recorder → Recorder} (hf : ∀ r, (f r).records = r.records) :
    Quiet fun w : Recording ρ => w.modifyRecorder (number w) f := by
  refine fun w h => ⟨⟨fun i n hn => ?_, fun i hi => ?_⟩, ?_⟩
  · exact size_modifyRecorder w _ f ▸ h.slot i n hn
  · exact size_modifyRecorder w _ f ▸ h.current i hi
  · funext n
    simp only [records, recorder, modifyRecorder, Array.getD_eq_getD_getElem?, Array.getElem?_modify]
    by_cases hn : number w = n
    · cases w.recorders[n]? <;> simp [hn, hf]
    · rw [if_neg hn]

/-- Setting a clock is not noticed. -/
theorem quiet_setTime (i : Nat) (seconds : Float) : Quiet (setTime i seconds : Recording ρ → Recording ρ) :=
  quiet_modifyRecorder _ fun _ => rfl

/-- Moving a clock is not noticed. -/
theorem quiet_advance (i : Nat) (seconds : Float) : Quiet (advance i seconds : Recording ρ → Recording ρ) :=
  quiet_modifyRecorder _ fun _ => rfl

/-- What a host keeps beside its recorders is its own affair. -/
theorem quiet_modifyState (f : ρ → ρ) : Quiet (modifyState f) := fun _ h => ⟨⟨h.slot, h.current⟩, rfl⟩

end Recording

end BlockScript
