import BlockScript.Proofs.Context.Operations

/-!
# Slots and recorders

What an action, the reading of a clock and each change to a recording host does to the slots, to the numbers of the contexts' own
recorders and to the recorders themselves. The later modules argue about recording hosts through these equations alone.
-/

namespace BlockScript

namespace Recording

variable {ρ : Type}

/-- The number of the recorder in a context's slot. -/
def slot (w : Recording ρ) (i : Nat) : Option Nat := w.slots.getD i none

/-- In a new host each context's own recorder has the number of the context. -/
theorem currentOf_new {size i : Nat} (hi : i < size) (installed : Bool) (state : ρ) : (new size installed state).currentOf i = i := by
  simp [new, currentOf, hi]

/-- In a new host the slots hold the contexts' own recorders, if these are installed. -/
theorem slot_new (size i : Nat) (installed : Bool) (state : ρ) :
    (new size installed state).slot i = if i < size ∧ installed = true then some i else none := by
  by_cases hi : i < size <;> simp [new, slot, hi]

/-- In a new host a slot holds at most the context's own recorder. -/
theorem slot_new_eq {size i n : Nat} {installed : Bool} {state : ρ} (h : (new size installed state).slot i = some n) :
    n = i ∧ i < size := by
  rw [slot_new] at h
  by_cases hi : i < size ∧ installed = true
  · rw [if_pos hi] at h
    exact ⟨(Option.some.inj h).symm, hi.1⟩
  · rw [if_neg hi] at h
    nomatch h

/-- A new host has one recorder for each context. -/
theorem size_new (size : Nat) (installed : Bool) (state : ρ) : (new size installed state).recorders.size = size := by
  simp [new]

/-! ## Acting -/

/-- A recorder that is asked to act records it. -/
theorem request_provider (record : ActionRecord) (n : Nat) :
    record.request (provider n : Provider (Recording ρ)) = modifyRecorder n (·.push record) := by
  cases record <;> rfl

section

variable {w : Recording ρ} {i n : Nat}

/-- An empty slot holds no provider. -/
theorem provider_of_none (h : w.slot i = none) : (handle i).provider? w = none := congrArg (Option.map provider) h

/-- A slot that names a recorder holds that recorder. -/
theorem provider_of_some (h : w.slot i = some n) : (handle i).provider? w = some (provider n) :=
  congrArg (Option.map provider) h

/-- Acting through an empty slot fails and leaves the host as it is. -/
theorem act_none (h : w.slot i = none) (record : ActionRecord) :
    (handle i).act record.request w = (.error .actionsNotInitialized, w) := by
  rw [ActionsHandle.act, provider_of_none h]

/-- Acting through a slot is recorded by the recorder in it. -/
theorem act_some (h : w.slot i = some n) (record : ActionRecord) :
    (handle i).act record.request w = (.ok (), w.modifyRecorder n (·.push record)) := by
  rw [ActionsHandle.act, provider_of_some h, ← request_provider]

/-- The clock of an empty slot cannot be read. -/
theorem currentTime_none (h : w.slot i = none) : (handle i).currentTime w = (.error .actionsNotInitialized, w) := by
  rw [ActionsHandle.currentTime, provider_of_none h]

/-- The clock of a slot is that of the recorder in it. -/
theorem currentTime_some (h : w.slot i = some n) : (handle i).currentTime w = (.ok (w.recorder n).now, w) := by
  rw [ActionsHandle.currentTime, provider_of_some h]
  rfl

end

section

variable (w : Recording ρ) (n m i : Nat) (f : Recorder → Recorder)

/-- Changing a recorder leaves the slots. -/
@[simp] theorem slot_modifyRecorder : (w.modifyRecorder n f).slot i = w.slot i := rfl

@[simp] theorem currentOf_modifyRecorder : (w.modifyRecorder n f).currentOf i = w.currentOf i := rfl

@[simp] theorem state_modifyRecorder : (w.modifyRecorder n f).state = w.state := rfl

/-- Changing a recorder leaves the number of recorders. -/
@[simp] theorem size_modifyRecorder : (w.modifyRecorder n f).recorders.size = w.recorders.size := Array.size_modify

variable {n} in
/-- Changing a recorder changes the one of that number and no other. -/
theorem recorder_modifyRecorder (hn : n < w.recorders.size) :
    (w.modifyRecorder n f).recorder m = if m = n then f (w.recorder n) else w.recorder m := by
  simp only [modifyRecorder, recorder, Array.getD_eq_getD_getElem?, Array.getElem?_modify]
  by_cases hm : m = n
  · subst hm
    simp [hn]
  · simp [hm, Ne.symm hm]

end

/-! ## Installing and clearing -/

section

variable (w : Recording ρ) (i j n : Nat)

/-- An emptied slot is empty, and the others hold what they held. -/
theorem slot_clear : ((handle i).clear w).slot j = if j = i then none else w.slot j := by
  simp only [handle, slot, Array.getD_eq_getD_getElem?, Array.getElem?_setIfInBounds]
  by_cases hj : j = i
  · subst hj
    by_cases hi : j < w.slots.size <;> simp [hi]
  · simp [hj, Ne.symm hj]

@[simp] theorem currentOf_clear : ((handle i).clear w).currentOf j = w.currentOf j := rfl

@[simp] theorem recorder_clear : ((handle i).clear w).recorder n = w.recorder n := rfl

@[simp] theorem state_clear : ((handle i).clear w).state = w.state := rfl

@[simp] theorem slots_size_clear : ((handle i).clear w).slots.size = w.slots.size := Array.size_setIfInBounds

/-- After installing, the slot holds the context's own recorder, and the others hold what they held. -/
theorem slot_install : (w.install i).slot j = if j = i ∧ i < w.slots.size then some (w.currentOf i) else w.slot j := by
  simp only [install, slot, Array.getD_eq_getD_getElem?, Array.getElem?_setIfInBounds]
  by_cases hj : j = i
  · subst hj
    by_cases hi : j < w.slots.size <;> simp [hi]
  · simp [hj, Ne.symm hj]

@[simp] theorem currentOf_install : (w.install i).currentOf j = w.currentOf j := rfl

@[simp] theorem recorder_install : (w.install i).recorder n = w.recorder n := rfl

@[simp] theorem state_install : (w.install i).state = w.state := rfl

@[simp] theorem slots_size_install : (w.install i).slots.size = w.slots.size := Array.size_setIfInBounds

/-- Makes a new recorder the context's own, without installing it. -/
def renew : Recording ρ :=
  { w with current := w.current.setIfInBounds i w.recorders.size, recorders := w.recorders.push {} }

/-- A new recorder is made the context's own and then installed. -/
theorem installNew_eq : w.installNew i = (w.renew i).install i := rfl

/-- The new recorder is that of the context, and the others have their own as before. -/
theorem currentOf_renew :
    (w.renew i).currentOf j = if j = i ∧ i < w.current.size then w.recorders.size else w.currentOf j := by
  simp only [renew, currentOf, Array.getD_eq_getD_getElem?, Array.getElem?_setIfInBounds]
  by_cases hj : j = i
  · subst hj
    by_cases hi : j < w.current.size <;> simp [hi]
  · simp [hj, Ne.symm hj]

variable {n} in
/-- A recorder that is not there is blank. -/
theorem recorder_of_le (h : w.recorders.size ≤ n) : w.recorder n = {} := by
  simp [recorder, Array.getD_eq_getD_getElem?, h]

/-- The new recorder is as blank as a recorder that is not there. -/
@[simp] theorem recorder_renew : (w.renew i).recorder n = w.recorder n := by
  simp only [renew, recorder, Array.getD_eq_getD_getElem?, Array.getElem?_push]
  by_cases hn : n = w.recorders.size
  · simp [hn]
  · simp [hn]

/-- Getting a new recorder leaves the slots. -/
@[simp] theorem slot_renew : (w.renew i).slot j = w.slot j := rfl

@[simp] theorem state_renew : (w.renew i).state = w.state := rfl

@[simp] theorem current_size_renew : (w.renew i).current.size = w.current.size := Array.size_setIfInBounds

/-- There is one recorder more. -/
@[simp] theorem size_renew : (w.renew i).recorders.size = w.recorders.size + 1 := Array.size_push _

end

end Recording

end BlockScript
