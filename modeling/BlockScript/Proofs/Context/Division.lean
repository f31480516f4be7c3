import BlockScript.Proofs.Context.Recorders

/-!
# Worlds divided among contexts

A world is divided among contexts: each has a part of it, and what is private to a context reads and changes its part alone
(`Division.Private`). A recording host is divided in this way as long as no two contexts have a recorder in common
(`Recording.division`). The slots are then private to the contexts, with the recorders in them (`Recording.separates`), and so are
installing a recorder, new or not, and the clocks.
-/

namespace BlockScript

/-- How a world is divided among contexts. -/
structure Division (ι : Type w) (σ : Type v) (π : Type u) where
  /-- The part of the world that belongs to a context. -/
  part : ι → σ → π
  /-- Whether the parts do not overlap. -/
  Apart : σ → Prop

namespace Division

variable {ι : Type w} {σ : Type v} {π : Type u} (d : Division ι σ π)

/-- The worlds do not differ in the part of a context. -/
def Alike (i : ι) (w v : σ) : Prop := d.Apart w ∧ d.Apart v ∧ d.part i w = d.part i v

/-- A callback, a test or the use of a slot that is private to a context: it depends on the context's part of the world alone, and
changes nothing outside of it. -/
structure Private {γ : Type u'} (i : ι) (f : σ → γ × σ) : Prop where
  alike : ∀ w v, d.Alike i w v → (f w).1 = (f v).1 ∧ d.part i (f w).2 = d.part i (f v).2
  apart : ∀ w, d.Apart w → d.Apart (f w).2
  unseen : ∀ j, j ≠ i → ∀ w, d.Apart w → d.part j (f w).2 = d.part j w

/-- A change to the world that is private to a context. -/
def PrivateChange (i : ι) (change : σ → σ) : Prop := d.Private i fun w => ((), change w)

/-- A test that is private to a context decides when a loop stops. -/
def PrivateLoop (i : ι) (k : LoopKind σ) : Prop := d.Private i k.shouldExit

/-- Each context has a slot and providers of its own. -/
structure Separates (handles : ι → ActionsHandle σ) : Prop where
  act : ∀ i (record : ActionRecord), d.Private i ((handles i).act record.request)
  currentTime : ∀ i, d.Private i (handles i).currentTime
  clear : ∀ i, d.PrivateChange i (handles i).clear

variable {d} {i : ι}

/-- What is private to a context answers alike where the part of the context is alike. -/
theorem Private.responds {γ : Type u'} {f : σ → γ × σ} (h : d.Private i f) : RespondsAlike (d.Alike i) f := fun w v hwv =>
  ⟨(h.alike w v hwv).1, h.apart w hwv.1, h.apart v hwv.2.1, (h.alike w v hwv).2⟩

/-- A world as it looks to a context. -/
def Looks (d : Division ι σ π) (j : ι) (look : π) (w : σ) : Prop := d.Apart w ∧ d.part j w = look

/-- What is private to a context changes no other context's part. -/
theorem Private.keeps {γ : Type u'} {f : σ → γ × σ} (h : d.Private i f) {j : ι} (hj : j ≠ i) {look : π} {w : σ} (hw : d.Looks j look w) :
    d.Looks j look (f w).2 :=
  ⟨h.apart w hw.1, (h.unseen j hj w hw.1).trans hw.2⟩

/-- A use of the world is private to a context if what it answers and what it leaves of the context's part can be told from that part. -/
theorem private_of {γ : Type u'} {f : σ → γ × σ} (answer : π → γ) (next : π → π)
    (h : ∀ w, d.Apart w → (f w).1 = answer (d.part i w) ∧ d.part i (f w).2 = next (d.part i w) ∧ d.Apart (f w).2)
    (hunseen : ∀ j, j ≠ i → ∀ w, d.Apart w → d.part j (f w).2 = d.part j w) : d.Private i f where
  alike w v hwv := by
    obtain ⟨hw, hv, hpart⟩ := hwv
    obtain ⟨hanswer, hnext, -⟩ := h w hw
    obtain ⟨hanswer', hnext', -⟩ := h v hv
    exact ⟨by rw [hanswer, hanswer', hpart], by rw [hnext, hnext', hpart]⟩
  apart w hw := (h w hw).2.2
  unseen := hunseen

/-- One private change after another. -/
theorem PrivateChange.comp {f g : σ → σ} (hf : d.PrivateChange i f) (hg : d.PrivateChange i g) : d.PrivateChange i fun w => g (f w) where
  alike w v hwv := hg.alike _ _ (hf.responds w v hwv).2
  apart w hw := hg.apart _ (hf.apart w hw)
  unseen j hj w hw := (hg.unseen j hj _ (hf.apart w hw)).trans (hf.unseen j hj w hw)

end Division

/-! ## Recording hosts -/

namespace Recording

variable {ρ : Type} {π : Type u} {size : Nat}

/-- What a recording host has for a context: the recorder in its slot, with whether it is the context's own, the context's own recorder,
and its share in the state beside the host. -/
@[ext] structure Holding (π : Type u) where
  installed : Option (Recorder × Bool)
  own : Recorder
  share : π

/-- The recorder of this number is the context's own or in its slot. -/
def Has (w : Recording ρ) (i n : Nat) : Prop := w.currentOf i = n ∨ w.slot i = some n

/-- There are so many contexts, the recorders that they have are there, and no two contexts have a recorder in common. -/
structure Divided (size : Nat) (w : Recording ρ) : Prop where
  slots : w.slots.size = size
  current : w.current.size = size
  exist : ∀ i, i < size → ∀ n, w.Has i n → n < w.recorders.size
  apart : ∀ i, i < size → ∀ j, j < size → ∀ n, w.Has i n → w.Has j n → i = j

/-- A recording host whose contexts share neither slots nor recorders nor the state beside it. -/
def division (share : Fin size → ρ → π) : Division (Fin size) (Recording ρ) (Holding π) where
  part i w := ⟨(w.slot i).map fun n => (w.recorder n, n == w.currentOf i), w.recorder (w.currentOf i), share i w.state⟩
  Apart := Divided size

variable {share : Fin size → ρ → π} {i : Fin size} {w v : Recording ρ}

/-- A context's part is what its slot, its own recorder, its recorders and its share of the state are. -/
theorem part_congr {j : Fin size} (hslot : v.slot j = w.slot j) (hcurrent : v.currentOf j = w.currentOf j)
    (hrecorder : ∀ n, w.Has j n → v.recorder n = w.recorder n) (hstate : share j v.state = share j w.state) :
    (division share).part j v = (division share).part j w := by
  have hinstalled : (v.slot j).map (fun n => (v.recorder n, n == v.currentOf j)) =
      (w.slot j).map (fun n => (w.recorder n, n == w.currentOf j)) := by
    rw [hslot, hcurrent]
    cases hn : w.slot j with
    | none => rfl
    | some n => simp [hrecorder n (.inr hn)]
  have hown : v.recorder (v.currentOf j) = w.recorder (w.currentOf j) := by rw [hcurrent, hrecorder _ (.inl rfl)]
  simp only [division, hinstalled, hown, hstate]

/-! ### Changing a recorder -/

/-- Changing a recorder keeps the recorders divided. -/
theorem divided_modifyRecorder (h : w.Divided size) (n : Nat) (f : Recorder → Recorder) : (w.modifyRecorder n f).Divided size where
  slots := h.slots
  current := h.current
  exist i hi m hm := by
    rw [size_modifyRecorder]
    exact h.exist i hi m hm
  apart := h.apart

/-- A change to a recorder that a context has is not seen by another. -/
theorem unseen_modifyRecorder (h : w.Divided size) {n : Nat} (hn : w.Has i n) (f : Recorder → Recorder) {j : Fin size} (hj : j ≠ i) :
    (division share).part j (w.modifyRecorder n f) = (division share).part j w := by
  refine part_congr rfl rfl (fun m hm => ?_) rfl
  have hne : m ≠ n := by
    rintro rfl
    exact hj (Fin.ext (h.apart j j.isLt i i.isLt m hm hn))
  rw [recorder_modifyRecorder w m f (h.exist i i.isLt n hn), if_neg hne]

/-- What a context has after a change to the recorder in its slot. -/
def Holding.changeInstalled (f : Recorder → Recorder) (p : Holding π) : Holding π where
  installed := p.installed.map fun x => (f x.1, x.2)
  own := if p.installed.any (·.2) then f p.own else p.own
  share := p.share

/-- What a context has after a change to its own recorder. -/
def Holding.changeOwn (f : Recorder → Recorder) (p : Holding π) : Holding π where
  installed := p.installed.map fun x => (if x.2 then f x.1 else x.1, x.2)
  own := f p.own
  share := p.share

/-- Changing the recorder in a slot changes the part of its context alone. -/
theorem part_changeInstalled (h : w.Divided size) {n : Nat} (hn : w.slot i = some n) (f : Recorder → Recorder) :
    (division share).part i (w.modifyRecorder n f) = ((division share).part i w).changeInstalled f := by
  have hrecorder := fun m => recorder_modifyRecorder w m f (h.exist i i.isLt n (.inr hn))
  by_cases hown : n = w.currentOf i
  · simp [division, Holding.changeInstalled, hn, hrecorder, ← hown]
  · simp [division, Holding.changeInstalled, hn, hrecorder, hown, Ne.symm hown]

/-- Changing a context's own recorder changes the part of that context alone. -/
theorem part_changeOwn (h : w.Divided size) (f : Recorder → Recorder) :
    (division share).part i (w.modifyRecorder (w.currentOf i) f) = ((division share).part i w).changeOwn f := by
  have hrecorder := fun m => recorder_modifyRecorder w m f (h.exist i i.isLt _ (.inl rfl))
  cases hn : w.slot i with
  | none => simp [division, Holding.changeOwn, hn, hrecorder]
  | some n =>
    by_cases hown : n = w.currentOf i
    · simp [division, Holding.changeOwn, hn, hrecorder, hown]
    · simp [division, Holding.changeOwn, hn, hrecorder, hown]

/-- Acting through a context's slot is private to it. -/
theorem act_private (i : Fin size) (record : ActionRecord) : (division share).Private i ((handle i).act record.request) := by
  refine Division.private_of (fun p => if p.installed.isSome then .ok () else .error .actionsNotInitialized)
    (Holding.changeInstalled (·.push record)) (fun w hw => ?_) fun j hj w hw => ?_
  · cases hn : w.slot i with
    | none =>
      rw [act_none hn]
      exact ⟨by simp [division, hn], by simp [division, Holding.changeInstalled, hn], hw⟩
    | some n =>
      rw [act_some hn]
      exact ⟨by simp [division, hn], part_changeInstalled hw hn _, divided_modifyRecorder hw n _⟩
  · cases hn : w.slot i with
    | none => rw [act_none hn]
    | some n =>
      rw [act_some hn]
      exact unseen_modifyRecorder hw (.inr hn) _ hj

/-- Reading the clock behind a context's slot is private to it. -/
theorem currentTime_private (i : Fin size) : (division share).Private i (handle i).currentTime := by
  refine Division.private_of (fun p => match p.installed with
    | none => .error .actionsNotInitialized
    | some x => .ok x.1.now) id (fun w hw => ?_) fun j hj w hw => ?_
  · cases hn : w.slot i with
    | none =>
      rw [currentTime_none hn]
      exact ⟨by simp [division, hn], rfl, hw⟩
    | some n =>
      rw [currentTime_some hn]
      exact ⟨by simp [division, hn], rfl, hw⟩
  · cases hn : w.slot i with
    | none => rw [currentTime_none hn]
    | some n => rw [currentTime_some hn]

/-! ### Changing what a context has -/

/-- Recorders stay divided where no context gets one that it has not had. -/
theorem divided_of_has (h : w.Divided size) (hslots : v.slots.size = w.slots.size) (hcurrent : v.current.size = w.current.size)
    (hrecorders : v.recorders.size = w.recorders.size) (hhas : ∀ j n, v.Has j n → w.Has j n) : v.Divided size where
  slots := hslots.trans h.slots
  current := hcurrent.trans h.current
  exist j hj n hn := hrecorders ▸ h.exist j hj n (hhas j n hn)
  apart j hj k hk n hn hn' := h.apart j hj k hk n (hhas j n hn) (hhas k n hn')

/-- Emptying a slot is private to its context. -/
theorem clear_private (i : Fin size) : (division share).PrivateChange i (handle i).clear := by
  refine Division.private_of (fun _ => ()) (fun p => { p with installed := none }) (fun w hw => ⟨rfl, ?_, ?_⟩) fun j hj w hw => ?_
  · simp [division, slot_clear]
  · refine divided_of_has hw (slots_size_clear w i) rfl rfl fun j n hn => hn.imp id fun hslot => ?_
    rw [slot_clear] at hslot
    by_cases hj : j = i
    · simp [hj] at hslot
    · simpa [hj] using hslot
  · exact part_congr (by rw [slot_clear, if_neg fun h => hj (Fin.ext h)]) rfl (fun _ _ => rfl) rfl

/-- Installing a context's own recorder is private to the context. -/
theorem install_private (i : Fin size) : (division share).PrivateChange i (install i) := by
  refine Division.private_of (fun _ => ()) (fun p => { p with installed := some (p.own, true) }) (fun w hw => ⟨rfl, ?_, ?_⟩)
    fun j hj w hw => ?_
  · have hi : (i : Nat) < w.slots.size := hw.slots ▸ i.isLt
    simp [division, slot_install, hi]
  · refine divided_of_has hw (slots_size_install w i) rfl rfl fun j n hn => ?_
    rcases hn with hown | hslot
    · exact .inl hown
    · rw [slot_install] at hslot
      by_cases hj : j = i ∧ (i : Nat) < w.slots.size
      · rw [if_pos hj] at hslot
        exact .inl (hj.1 ▸ Option.some.inj hslot)
      · rw [if_neg hj] at hslot
        exact .inr hslot
  · exact part_congr (by rw [slot_install, if_neg fun h => hj (Fin.ext h.1)]) rfl (fun _ _ => rfl) rfl

/-- A context that gets a new recorder has what it had in its slot and the new recorder. -/
theorem has_renew {j n : Nat} (hn : (w.renew i).Has j n) :
    (j = i ∧ n = w.recorders.size) ∨ w.Has j n := by
  rcases hn with hown | hslot
  · rw [currentOf_renew] at hown
    by_cases hj : j = i ∧ (i : Nat) < w.current.size
    · rw [if_pos hj] at hown
      exact .inl ⟨hj.1, hown.symm⟩
    · rw [if_neg hj] at hown
      exact .inr (.inl hown)
  · exact .inr (.inr hslot)

/-- A new recorder for one context keeps the recorders divided. -/
theorem divided_renew (h : w.Divided size) : (w.renew i).Divided size where
  slots := h.slots
  current := (current_size_renew w i).trans h.current
  exist j hj n hn := by
    rw [size_renew]
    rcases has_renew hn with ⟨-, rfl⟩ | hn
    · exact Nat.lt_succ_self _
    · exact Nat.lt_succ_of_lt (h.exist j hj n hn)
  apart j hj k hk n hn hn' := by
    rcases has_renew hn with ⟨rfl, rfl⟩ | hn <;> rcases has_renew hn' with ⟨rfl, hsize⟩ | hn'
    · rfl
    · exact absurd (h.exist k hk _ hn') (Nat.lt_irrefl _)
    · exact absurd (hsize ▸ h.exist j hj _ hn) (Nat.lt_irrefl _)
    · exact h.apart j hj k hk n hn hn'

/-- Getting a new recorder is private to the context. -/
theorem renew_private (i : Fin size) : (division share).PrivateChange i (renew · i) := by
  refine Division.private_of (fun _ => ()) (fun p => { p with installed := p.installed.map fun x => (x.1, false), own := {} })
    (fun w hw => ⟨rfl, ?_, divided_renew hw⟩) fun j hj w hw => ?_
  · have hi : (i : Nat) < w.current.size := hw.current ▸ i.isLt
    have hcurrent : (w.renew i).currentOf i = w.recorders.size := by rw [currentOf_renew, if_pos ⟨rfl, hi⟩]
    have hown : w.recorder w.recorders.size = {} := recorder_of_le w (Nat.le_refl _)
    cases hn : w.slot i with
    | none => simp [division, hn, hcurrent, hown]
    | some n =>
      have hne : n ≠ w.recorders.size := Nat.ne_of_lt (hw.exist i i.isLt n (.inr hn))
      simp [division, hn, hcurrent, hown, hne]
  · exact part_congr rfl (by rw [currentOf_renew, if_neg fun h => hj (Fin.ext h.1)]) (fun n _ => recorder_renew w i n) rfl

/-- What a context's own callbacks do to its own recorder, as where they move its clock. -/
theorem tend_private (i : Fin size) (f : Recorder → Recorder) :
    (division share).PrivateChange i fun w => w.modifyRecorder (w.currentOf i) f :=
  Division.private_of (fun _ => ()) (Holding.changeOwn f) (fun _ hw => ⟨rfl, part_changeOwn hw f, divided_modifyRecorder hw _ f⟩)
    fun _ hj _ hw => unseen_modifyRecorder hw (.inl rfl) f hj

/-- Installing a new recorder is private to the context. -/
theorem installNew_private (i : Fin size) : (division share).PrivateChange i (installNew i) := (renew_private i).comp (install_private i)

/-- The contexts of a recording host have slots and recorders of their own. -/
theorem separates (share : Fin size → ρ → π) : (division share).Separates fun i => handle i :=
  ⟨act_private, currentTime_private, clear_private⟩

/-- What a callback or a test does to the state beside the host is private to a context if it concerns the share of this context alone. -/
theorem state_private {γ : Type u'} (i : Fin size) {f : ρ → γ × ρ}
    (hf : ∀ s t, share i s = share i t → (f s).1 = (f t).1 ∧ share i (f s).2 = share i (f t).2)
    (hunseen : ∀ j, j ≠ i → ∀ s, share j (f s).2 = share j s) :
    (division share).Private i fun w => ((f w.state).1, { w with state := (f w.state).2 }) where
  alike w v hwv := by
    obtain ⟨-, -, hpart⟩ := hwv
    obtain ⟨hinstalled, hown, hshare⟩ := Holding.mk.inj hpart
    obtain ⟨hanswer, hnext⟩ := hf w.state v.state hshare
    exact ⟨hanswer, Holding.ext hinstalled hown hnext⟩
  apart w hw := ⟨hw.slots, hw.current, hw.exist, hw.apart⟩
  unseen j hj w hw := part_congr rfl rfl (fun _ _ => rfl) (hunseen j hj w.state)

/-- A new host is divided. -/
theorem divided_new (size : Nat) (installed : Bool) (state : ρ) : (new size installed state).Divided size := by
  have hhas : ∀ i, i < size → ∀ n, (new size installed state).Has i n → n = i := by
    rintro i hi n (hown | hslot)
    · rw [← hown, currentOf_new hi]
    · exact (slot_new_eq hslot).1
  refine ⟨by simp [new], by simp [new], fun i hi n hn => ?_, fun i hi j hj n hn hn' => ?_⟩
  · rw [size_new, hhas i hi n hn]
    exact hi
  · rw [← hhas i hi n hn, ← hhas j hj n hn']

end Recording

end BlockScript
