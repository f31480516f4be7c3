import BlockScript.Block.Primitive
import BlockScript.Runner
import BlockScript.Proofs.Block.Children

/-!
# What all calls on blocks uphold

`Upholds S I Q` says of the blocks of a type that every call on a block with `S`, made in a world with `I`, leaves such a block in
such a world and answers with `Q`. If the leaves of a tree uphold this and its tests keep `I`, the tree upholds it
(`Tree.upholds`): what is to be shown of all trees in all positions of their cursors is shown of leaves. With `Q` the good outcome,
it says that no call ever fails.
-/

namespace BlockScript

/-- All calls on blocks with `S` in worlds with `I` leave such blocks and worlds, and answer with `Q` where they can fail. -/
structure Upholds {β : Type u} {σ : Type v} [Block β σ] (S : β → Prop) (I : σ → Prop) (Q : Outcome → Prop) : Prop where
  create : ∀ b w, S b → I w → S (Block.create b w).1 ∧ I (Block.create b w).2
  destroy : ∀ b w, S b → I w → S (Block.destroy b w).1 ∧ I (Block.destroy b w).2
  enter : ∀ b w, S b → I w → Q (Block.enter b w).1 ∧ S (Block.enter b w).2.1 ∧ I (Block.enter b w).2.2
  run : ∀ dt b w, S b → I w → Q (Block.run dt b w).1 ∧ S (Block.run dt b w).2.1 ∧ I (Block.run dt b w).2.2
  exit : ∀ b w, S b → I w → S (Block.exit b w).1 ∧ I (Block.exit b w).2

/-! ## Leaves -/

/-- The callbacks, clocks and tests of a leaf keep `I` and answer with `Q`. -/
def Primitive.Keeps {σ : Type v} (I : σ → Prop) (Q : Outcome → Prop) : Primitive σ → Prop
  | .execute callback _ => ∀ w, I w → Q (callback w).1 ∧ I (callback w).2
  | .wait _ _ _ clock => ∀ w, I w → Q ((clock.currentTime w).1.map fun _ => ()) ∧ I (clock.currentTime w).2
  | .condition test _ => ∀ w, I w → I (test w).2

/-- Leaves that keep an invariant uphold it. -/
theorem Primitive.upholds {σ : Type v} {I : σ → Prop} {Q : Outcome → Prop} (hQ : Q (.ok ())) :
    Upholds (Primitive.Keeps I Q) I Q where
  create b w hb hw := ⟨hb, hw⟩
  destroy b w hb hw := ⟨hb, hw⟩
  enter b w hb hw := by
    cases b with
    | execute callback executed => exact ⟨hQ, hb, hw⟩
    | condition test result => exact ⟨hQ, hb, hw⟩
    | wait duration start now clock =>
      have hclock := hb w hw
      simp only [Block.enter, Primitive.enter]
      rcases hread : clock.currentTime w with ⟨e | t, w'⟩
      · rw [hread] at hclock
        exact ⟨hclock.1, hb, hclock.2⟩
      · rw [hread] at hclock
        exact ⟨hQ, hb, hclock.2⟩
  run dt b w hb hw := by
    cases b with
    | execute callback executed =>
      cases executed with
      | true => exact ⟨hQ, hb, hw⟩
      | false => exact ⟨(hb w hw).1, hb, (hb w hw).2⟩
    | condition test result => exact ⟨hQ, hb, hb w hw⟩
    | wait duration start now clock =>
      have hclock := hb w hw
      simp only [Block.run, Primitive.run]
      rcases hread : clock.currentTime w with ⟨e | t, w'⟩
      · rw [hread] at hclock
        exact ⟨hclock.1, hb, hclock.2⟩
      · rw [hread] at hclock
        exact ⟨hQ, hb, hclock.2⟩
  exit b w hb hw := ⟨hb, hw⟩

/-! ## Trees -/

namespace Tree

/-- Every leaf of a tree has `S` and every loop is of a kind with `K`. -/
inductive All {α : Type u} {σ : Type v} (S : α → Prop) (K : LoopKind σ → Prop) : Tree α σ → Prop where
  | leaf {b : α} : S b → All S K (leaf b)
  | sequence {cs : List (Tree α σ)} {i : Nat} {e : Bool} : (∀ c ∈ cs, All S K c) → All S K (sequence cs i e)
  | loop {k : LoopKind σ} {cs : List (Tree α σ)} {i : Nat} {s e : Bool} :
      K k → (∀ c ∈ cs, All S K c) → All S K (loop k cs i s e)

/-- A weaker statement holds of all leaves and loops where a stronger one does. -/
theorem All.mono {α : Type u} {σ : Type v} {S S' : α → Prop} {K K' : LoopKind σ → Prop} {t : Tree α σ} (h : All S K t)
    (hS : ∀ b, S b → S' b) (hK : ∀ k, K k → K' k) : All S' K' t := by
  induction h with
  | leaf hb => exact .leaf (hS _ hb)
  | sequence _ ih => exact .sequence ih
  | loop hk _ ih => exact .loop (hK _ hk) ih

/-- Asking a loop of this kind keeps `I`. -/
def TestKeeps {σ : Type v} (I : σ → Prop) (k : LoopKind σ) : Prop := ∀ w, I w → I (k.shouldExit w).2

variable {α : Type u} {σ : Type v} {P : Tree α σ → Prop} {I : σ → Prop}

/-- What holds of all children holds of them where one is replaced by one of which it holds. -/
theorem forall_mem_set {cs : List (Tree α σ)} (h : ∀ c ∈ cs, P c) (i : Nat) {c : Tree α σ} (hc : P c) :
    ∀ d ∈ cs.set i c, P d := by
  intro d hd
  rcases List.mem_or_eq_of_mem_set hd with hd | rfl
  · exact h d hd
  · exact hc

/-- A call that leaves each member of a list good, and keeps the world so, leaves all of them good. -/
theorem inTurn_all {call : Tree α σ → σ → Tree α σ × σ} {cs : List (Tree α σ)}
    (hcall : ∀ c ∈ cs, ∀ w, I w → P (call c w).1 ∧ I (call c w).2) (w : σ) (hw : I w) :
    (∀ c ∈ (inTurn call cs w).1, P c) ∧ I (inTurn call cs w).2 := by
  induction cs generalizing w with
  | nil => exact ⟨nofun, hw⟩
  | cons c cs ih =>
    obtain ⟨hc, hw'⟩ := hcall c (by simp) w hw
    obtain ⟨hcs, hw''⟩ := ih (fun d hd => hcall d (by simp [hd])) (call c w).2 hw'
    exact ⟨List.forall_mem_cons.mpr ⟨hc, hcs⟩, hw''⟩

variable [Block α σ] {S : α → Prop} {K : LoopKind σ → Prop} {Q : Outcome → Prop}

/-- Creating a tree upholds what creating its leaves does. -/
theorem create_all (h : Upholds S I Q) {t : Tree α σ} (ht : All S K t) :
    ∀ w, I w → All S K (create t w).1 ∧ I (create t w).2 := by
  induction ht with
  | leaf hb =>
    intro w hw
    exact ⟨.leaf (h.create _ w hb hw).1, (h.create _ w hb hw).2⟩
  | sequence _ ih =>
    intro w hw
    simp only [create, createAll_eq]
    exact ⟨.sequence (inTurn_all ih w hw).1, (inTurn_all ih w hw).2⟩
  | loop hk _ ih =>
    intro w hw
    simp only [create, createAll_eq]
    exact ⟨.loop hk (inTurn_all ih w hw).1, (inTurn_all ih w hw).2⟩

/-- Destroying a tree upholds what destroying its leaves does. -/
theorem destroy_all (h : Upholds S I Q) {t : Tree α σ} (ht : All S K t) :
    ∀ w, I w → All S K (destroy t w).1 ∧ I (destroy t w).2 := by
  induction ht with
  | leaf hb =>
    intro w hw
    exact ⟨.leaf (h.destroy _ w hb hw).1, (h.destroy _ w hb hw).2⟩
  | sequence _ ih =>
    intro w hw
    simp only [destroy, destroyAll_eq]
    exact ⟨.sequence (inTurn_all ih w hw).1, (inTurn_all ih w hw).2⟩
  | loop hk _ ih =>
    intro w hw
    simp only [destroy, destroyAll_eq]
    exact ⟨.loop hk (inTurn_all ih w hw).1, (inTurn_all ih w hw).2⟩

/-- Exiting the child at an index upholds what exiting each child does. -/
theorem exitAt_all {cs : List (Tree α σ)} (hcs : ∀ c ∈ cs, P c)
    (hexit : ∀ c ∈ cs, ∀ w, I w → P (exit c w).1 ∧ I (exit c w).2) (i : Nat) (w : σ) (hw : I w) :
    (∀ c ∈ (exitAt cs i w).1, P c) ∧ I (exitAt cs i w).2 := by
  rw [exitAt_eq]
  cases hc : cs[i]? with
  | none => exact ⟨hcs, hw⟩
  | some c =>
    obtain ⟨hc', hw'⟩ := hexit c (List.mem_of_getElem? hc) w hw
    exact ⟨forall_mem_set hcs i hc', hw'⟩

/-- Exiting a tree upholds what exiting its leaves does. -/
theorem exit_all (h : Upholds S I Q) {t : Tree α σ} (ht : All S K t) :
    ∀ w, I w → All S K (exit t w).1 ∧ I (exit t w).2 := by
  induction ht with
  | leaf hb =>
    intro w hw
    exact ⟨.leaf (h.exit _ w hb hw).1, (h.exit _ w hb hw).2⟩
  | @sequence cs i e hcs ih =>
    intro w hw
    cases e with
    | false => exact ⟨.sequence hcs, hw⟩
    | true => exact ⟨.sequence (exitAt_all hcs ih i w hw).1, (exitAt_all hcs ih i w hw).2⟩
  | @loop k cs i s e hk hcs ih =>
    intro w hw
    cases e with
    | false => exact ⟨.loop hk hcs, hw⟩
    | true => exact ⟨.loop hk (exitAt_all hcs ih i w hw).1, (exitAt_all hcs ih i w hw).2⟩

/-- Entering the child at an index upholds what entering each child does. -/
theorem enterAt_all (hQ : Q (.ok ())) {cs : List (Tree α σ)} (hcs : ∀ c ∈ cs, P c)
    (henter : ∀ c ∈ cs, ∀ w, I w → Q (enter c w).1 ∧ P (enter c w).2.1 ∧ I (enter c w).2.2) (i : Nat) (w : σ) (hw : I w) :
    Q (enterAt cs i w).1 ∧ (∀ c ∈ (enterAt cs i w).2.1, P c) ∧ I (enterAt cs i w).2.2 := by
  rw [enterAt_eq]
  cases hc : cs[i]? with
  | none => exact ⟨hQ, hcs, hw⟩
  | some c =>
    obtain ⟨hq, hc', hw'⟩ := henter c (List.mem_of_getElem? hc) w hw
    exact ⟨hq, forall_mem_set hcs i hc', hw'⟩

/-- Entering a tree upholds what its leaves and the tests of its loops do. -/
theorem enter_all (h : Upholds S I Q) (hQ : Q (.ok ())) (hK : ∀ k, K k → TestKeeps I k) {t : Tree α σ} (ht : All S K t) :
    ∀ w, I w → Q (enter t w).1 ∧ All S K (enter t w).2.1 ∧ I (enter t w).2.2 := by
  induction ht with
  | leaf hb =>
    intro w hw
    obtain ⟨hq, hb', hw'⟩ := h.enter _ w hb hw
    exact ⟨hq, .leaf hb', hw'⟩
  | sequence hcs ih =>
    intro w hw
    obtain ⟨hq, hcs', hw'⟩ := enterAt_all hQ hcs ih 0 w hw
    exact ⟨hq, .sequence hcs', hw'⟩
  | @loop k cs i s e hk hcs ih =>
    intro w hw
    have hw' : I (k.shouldExit w).2 := hK k hk w hw
    simp only [enter]
    rcases hstop : k.shouldExit w with ⟨_ | _, w'⟩ <;> rw [hstop] at hw'
    · obtain ⟨hq, hcs', hw''⟩ := enterAt_all hQ hcs ih 0 w' hw'
      exact ⟨hq, .loop hk hcs', hw''⟩
    · exact ⟨hQ, .loop hk hcs, hw'⟩

/-- A tick of the tree in a world with `I` ends with `Q` and leaves a tree and a world of the same sort. -/
def TickUpholds (S : α → Prop) (K : LoopKind σ → Prop) (I : σ → Prop) (Q : Outcome → Prop) (dt : Float) (t : Tree α σ) : Prop :=
  ∀ w, I w → Q (run dt t w).1 ∧ All S K (run dt t w).2.1 ∧ I (run dt t w).2.2

/-- A child's share of a tick upholds what running the child does. -/
theorem stepChild_all (h : Upholds S I Q) {dt : Float} {c : Tree α σ} (hrun : TickUpholds S K I Q dt c) {w : σ} (hw : I w) :
    (∀ e, (stepChild dt c w).1 = .error e → Q (.error e)) ∧ All S K (stepChild dt c w).2.1 ∧ I (stepChild dt c w).2.2 := by
  have hrun := hrun w hw
  unfold stepChild
  rcases hc : run dt c w with ⟨e | ⟨⟩, c', w'⟩ <;> rw [hc] at hrun
  all_goals obtain ⟨hq, hc', hw'⟩ := hrun
  · refine ⟨?_, hc', hw'⟩
    rintro _ ⟨⟩
    exact hq
  · cases hdone : isComplete c' w' with
    | false => simpa [hdone] using ⟨hc', hw'⟩
    | true => simpa [hdone] using exit_all h hc' w' hw'

/-- Running the child at an index upholds what running each child does. -/
theorem runAt_all (h : Upholds S I Q) {dt : Float} {cs cs' : List (Tree α σ)} (hcs : ∀ c ∈ cs, All S K c)
    (hrun : ∀ c ∈ cs, TickUpholds S K I Q dt c) {i : Nat} {w w' : σ} (hw : I w) {r : Except BlockError Bool}
    (hr : runAt dt cs i w = (r, cs', w')) :
    (∀ e, r = .error e → Q (.error e)) ∧ (∀ c ∈ cs', All S K c) ∧ I w' := by
  rw [runAt_eq] at hr
  cases hc : cs[i]? with
  | none =>
    rw [hc] at hr
    obtain ⟨rfl, rfl, rfl⟩ : .ok false = r ∧ cs = cs' ∧ w = w' := by simpa using hr
    exact ⟨nofun, hcs, hw⟩
  | some c =>
    rw [hc] at hr
    obtain ⟨hq, hc', hw'⟩ := stepChild_all h (hrun c (List.mem_of_getElem? hc)) hw
    obtain ⟨rfl, rfl, rfl⟩ : (stepChild dt c w).1 = r ∧ cs.set i (stepChild dt c w).2.1 = cs' ∧
        (stepChild dt c w).2.2 = w' := by simpa using hr
    exact ⟨hq, forall_mem_set hcs i hc', hw'⟩

/-- Entering a child, for the first time or again. -/
theorem enterAt_of_all (h : Upholds S I Q) (hQ : Q (.ok ())) (hK : ∀ k, K k → TestKeeps I k) {cs : List (Tree α σ)}
    (hcs : ∀ c ∈ cs, All S K c) (i : Nat) {w : σ} (hw : I w) :
    Q (enterAt cs i w).1 ∧ (∀ c ∈ (enterAt cs i w).2.1, All S K c) ∧ I (enterAt cs i w).2.2 :=
  enterAt_all hQ hcs (fun c hc => enter_all h hQ hK (hcs c hc)) i w hw

/-- Running a sequence upholds what running each child does. -/
theorem run_sequence_all (h : Upholds S I Q) (hQ : Q (.ok ())) (hK : ∀ k, K k → TestKeeps I k) {dt : Float}
    {cs : List (Tree α σ)} (hcs : ∀ c ∈ cs, All S K c) (hrun : ∀ c ∈ cs, TickUpholds S K I Q dt c) (i : Nat) (e : Bool) :
    TickUpholds S K I Q dt (sequence cs i e) := by
  intro w hw
  rcases Nat.lt_or_ge i cs.length with hi | hi
  · cases e with
    | false =>
      rw [run_sequence_retry hi]
      obtain ⟨hq, hcs', hw'⟩ := enterAt_of_all h hQ hK hcs i hw
      exact ⟨hq, .sequence hcs', hw'⟩
    | true =>
      rcases hr : runAt dt cs i w with ⟨err | _ | _, cs', w'⟩
      all_goals obtain ⟨hq, hcs', hw'⟩ := runAt_all h hcs hrun hw hr
      · rw [run_sequence_error hi hr]
        exact ⟨hq err rfl, .sequence hcs', hw'⟩
      · rw [run_sequence_busy hi hr]
        exact ⟨hQ, .sequence hcs', hw'⟩
      · rw [run_sequence_next hi hr]
        obtain ⟨hq', hcs'', hw''⟩ := enterAt_of_all h hQ hK hcs' (i + 1) hw'
        exact ⟨hq', .sequence hcs'', hw''⟩
  · rw [run_sequence_done hi]
    exact ⟨hQ, .sequence hcs, hw⟩

/-- Running a loop upholds what its test and running each child do. -/
theorem run_loop_all (h : Upholds S I Q) (hQ : Q (.ok ())) (hK : ∀ k, K k → TestKeeps I k) {dt : Float} {k : LoopKind σ}
    (hk : K k) {cs : List (Tree α σ)} (hcs : ∀ c ∈ cs, All S K c) (hrun : ∀ c ∈ cs, TickUpholds S K I Q dt c) (i : Nat)
    (s e : Bool) : TickUpholds S K I Q dt (loop k cs i s e) := by
  intro w hw
  by_cases hidle : s = true ∨ cs = []
  · rw [run_loop_idle hidle]
    exact ⟨hQ, .loop hk hcs, hw⟩
  · obtain ⟨hs, hne⟩ := not_or.mp hidle
    obtain rfl : s = false := by simpa using hs
    have hw' : I (k.shouldExit w).2 := hK k hk w hw
    rcases hstop : k.shouldExit w with ⟨_ | _, w'⟩ <;> rw [hstop] at hw'
    · cases e with
      | false =>
        rw [run_loop_retry hne hstop]
        obtain ⟨hq, hcs', hw''⟩ := enterAt_of_all h hQ hK hcs i hw'
        exact ⟨hq, .loop hk hcs', hw''⟩
      | true =>
        rcases hr : runAt dt cs i w' with ⟨err | _ | _, cs', w''⟩
        all_goals obtain ⟨hq, hcs', hw''⟩ := runAt_all h hcs hrun hw' hr
        · rw [run_loop_error hne hstop hr]
          exact ⟨hq err rfl, .loop hk hcs', hw''⟩
        · rw [run_loop_busy hne hstop hr]
          exact ⟨hQ, .loop hk hcs', hw''⟩
        · rcases Nat.lt_or_ge (i + 1) cs'.length with hi | hi
          · rw [run_loop_next hne hstop hr hi]
            obtain ⟨hq', hcs'', hw₃⟩ := enterAt_of_all h hQ hK hcs' (i + 1) hw''
            exact ⟨hq', .loop hk hcs'', hw₃⟩
          · have hw₃ : I (k.shouldExit w'').2 := hK k hk w'' hw''
            rcases hwrap : k.shouldExit w'' with ⟨_ | _, w₃⟩ <;> rw [hwrap] at hw₃
            · rw [run_loop_wrap hne hstop hr hi hwrap]
              obtain ⟨hq', hcs'', hw₄⟩ := enterAt_of_all h hQ hK hcs' 0 hw₃
              exact ⟨hq', .loop hk hcs'', hw₄⟩
            · rw [run_loop_finish hne hstop hr hi hwrap]
              exact ⟨hQ, .loop hk hcs', hw₃⟩
    · rw [run_loop_stop hne hstop]
      exact ⟨hQ, .loop hk hcs, hw'⟩

/-- Running a tree upholds what its leaves and the tests of its loops do. -/
theorem run_all (h : Upholds S I Q) (hQ : Q (.ok ())) (hK : ∀ k, K k → TestKeeps I k) (dt : Float) {t : Tree α σ}
    (ht : All S K t) : TickUpholds S K I Q dt t := by
  induction ht with
  | leaf hb =>
    intro w hw
    obtain ⟨hq, hb', hw'⟩ := h.run dt _ w hb hw
    exact ⟨hq, .leaf hb', hw'⟩
  | sequence hcs ih => exact run_sequence_all h hQ hK hcs ih _ _
  | loop hk hcs ih => exact run_loop_all h hQ hK hk hcs ih _ _ _

/-- What the leaves of a tree uphold, the tree upholds: whatever the position of its cursors, no call on it breaks what no call on
a leaf breaks. -/
theorem upholds (h : Upholds S I Q) (hQ : Q (.ok ())) (hK : ∀ k, K k → TestKeeps I k) :
    Upholds (fun t : Tree α σ => All S K t) I Q where
  create _ w ht hw := create_all h ht w hw
  destroy _ w ht hw := destroy_all h ht w hw
  enter _ w ht hw := enter_all h hQ hK ht w hw
  run dt _ w ht hw := run_all h hQ hK dt ht w hw
  exit _ w ht hw := exit_all h ht w hw

end Tree

/-! ## Runners -/

namespace Runner

variable {β : Type u} {σ : Type v} [Block β σ] {S : β → Prop} {I : σ → Prop} {Q : Outcome → Prop}

/-- Adding a root upholds what entering it does. -/
theorem add_upholds (h : Upholds S I Q) {r : Runner β} (hr : ∀ x ∈ r.roots, S x.2) {b : β} (hb : S b) {w : σ} (hw : I w) :
    (∀ e, (r.add b w).1 = .error e → Q (.error e)) ∧ (∀ x ∈ (r.add b w).2.1.roots, S x.2) ∧ I (r.add b w).2.2 := by
  obtain ⟨hb', hw'⟩ := h.create b w hb hw
  have henter := h.enter _ _ hb' hw'
  simp only [add]
  rcases hb'' : Block.enter (Block.create b w).1 (Block.create b w).2 with ⟨e | ⟨⟩, b'', w''⟩ <;> rw [hb''] at henter
  all_goals obtain ⟨hq, hb'', hw''⟩ := henter
  · refine ⟨?_, hr, hw''⟩
    rintro _ ⟨⟩
    exact hq
  · refine ⟨nofun, ?_, hw''⟩
    simp only [List.forall_mem_append, List.forall_mem_singleton]
    exact ⟨hr, hb''⟩

/-- Taking a root out upholds what exiting and destroying it does. -/
theorem retire_upholds (h : Upholds S I Q) {b : β} (hb : S b) {w : σ} (hw : I w) : I (retire b w) := by
  obtain ⟨hb', hw'⟩ := h.exit b w hb hw
  exact (h.destroy _ _ hb' hw').2

/-- A tick of the roots upholds what running each of them does. -/
theorem advance_upholds (h : Upholds S I Q) (hQ : Q (.ok ())) (dt : Float) {roots : List (Nat × β)}
    (hroots : ∀ x ∈ roots, S x.2) {w : σ} (hw : I w) :
    Q (advance dt roots w).1 ∧ (∀ x ∈ (advance dt roots w).2.1, S x.2) ∧ I (advance dt roots w).2.2 := by
  induction roots with
  | nil => exact ⟨hQ, nofun, hw⟩
  | cons x newer ih =>
    obtain ⟨id, b⟩ := x
    obtain ⟨hb, hnewer⟩ := List.forall_mem_cons.mp hroots
    have hadvance := ih hnewer
    simp only [advance]
    rcases hn : advance dt newer w with ⟨e | ⟨⟩, kept, w'⟩ <;> rw [hn] at hadvance
    all_goals obtain ⟨hq, hkept, hw'⟩ := hadvance
    · exact ⟨hq, List.forall_mem_cons.mpr ⟨hb, hkept⟩, hw'⟩
    · have hrun := h.run dt b w' hb hw'
      simp only
      rcases hb' : Block.run dt b w' with ⟨e | ⟨⟩, b', w''⟩ <;> rw [hb'] at hrun
      all_goals obtain ⟨hq', hb', hw''⟩ := hrun
      · exact ⟨hq', List.forall_mem_cons.mpr ⟨hb', hkept⟩, hw''⟩
      · by_cases hdone : Block.isComplete b' w'' = true
        · simp only [if_pos hdone]
          exact ⟨hQ, hkept, retire_upholds h hb' hw''⟩
        · simp only [if_neg hdone]
          exact ⟨hQ, List.forall_mem_cons.mpr ⟨hb', hkept⟩, hw''⟩

end Runner

end BlockScript
