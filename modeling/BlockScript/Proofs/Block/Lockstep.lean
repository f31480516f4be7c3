import BlockScript.Proofs.Block.Upholds

/-!
# Blocks in lockstep

Two blocks in two worlds, compared call by call. `Lockstep Akin InStep W` says of the blocks of a type: two that are akin, entered in
related worlds, answer alike and are then in step, unless they could not be entered; two that are in step answer every call alike, and
stay in step in worlds that stay related. If this holds of the leaves of trees, it holds of trees (`Tree.lockstep`). Trees are in step
if they have the same shape and the same cursors and if the child under each cursor, where it is entered, is in step: the children
that are not entered only have to be akin, since what was left in them is discarded before it is read.
-/

namespace BlockScript

/-- Two calls answered alike and left related blocks in related worlds. -/
structure Agree {γ : Type w} {β : Type u} {σ : Type v} (R : β → β → Prop) (W : σ → σ → Prop) (x y : γ × β × σ) : Prop where
  answer : x.1 = y.1
  block : R x.2.1 y.2.1
  world : W x.2.2 y.2.2

/-- Blocks that are akin get in step by being entered, and blocks that are in step stay so. -/
structure Lockstep {β : Type u} {σ : Type v} [Block β σ] (Akin InStep : β → β → Prop) (W : σ → σ → Prop) : Prop where
  akin : ∀ {b c}, InStep b c → Akin b c
  enter : ∀ {b c w v}, Akin b c → W w v → Agree Akin W (Block.enter b w) (Block.enter c v)
  entered : ∀ {b c w v}, Akin b c → W w v → (Block.enter b w).1 = .ok () →
    InStep (Block.enter b w).2.1 (Block.enter c v).2.1
  /-- An attempt to enter blocks that are in step leaves them so, also where it fails. -/
  reenter : ∀ {b c w v}, InStep b c → W w v → InStep (Block.enter b w).2.1 (Block.enter c v).2.1
  run : ∀ {b c w v} dt, InStep b c → W w v → Agree InStep W (Block.run dt b w) (Block.run dt c v)
  exit : ∀ {b c w v}, InStep b c → W w v →
    InStep (Block.exit b w).1 (Block.exit c v).1 ∧ W (Block.exit b w).2 (Block.exit c v).2
  isComplete : ∀ {b c w v}, InStep b c → W w v → Block.isComplete b w = Block.isComplete c v

/-- Two tests of loops answer alike and leave related worlds. -/
def TestsAgree {σ : Type v} (W : σ → σ → Prop) (k l : LoopKind σ) : Prop :=
  ∀ w v, W w v → ∃ stop w' v', k.shouldExit w = (stop, w') ∧ l.shouldExit v = (stop, v') ∧ W w' v'

namespace Tree

variable {α : Type u} {σ : Type v}

/-- Trees of the same shape with related leaves and loops, wherever their cursors stand. -/
inductive Akin (A : α → α → Prop) (K : LoopKind σ → LoopKind σ → Prop) : Tree α σ → Tree α σ → Prop where
  | leaf {b c : α} : A b c → Akin A K (leaf b) (leaf c)
  | sequence {cs ds : List (Tree α σ)} {i j : Nat} {e f : Bool} : cs.length = ds.length →
      (∀ (n : Nat) c d, cs[n]? = some c → ds[n]? = some d → Akin A K c d) → Akin A K (sequence cs i e) (sequence ds j f)
  | loop {k l : LoopKind σ} {cs ds : List (Tree α σ)} {i j : Nat} {s t e f : Bool} : K k l → cs.length = ds.length →
      (∀ (n : Nat) c d, cs[n]? = some c → ds[n]? = some d → Akin A K c d) → Akin A K (loop k cs i s e) (loop l ds j t f)

/-- Trees that are akin, with the same cursors as far down as children are entered, and with the leaf there in step. -/
inductive InStep (A L : α → α → Prop) (K : LoopKind σ → LoopKind σ → Prop) : Tree α σ → Tree α σ → Prop where
  | leaf {b c : α} : L b c → InStep A L K (leaf b) (leaf c)
  | sequence {cs ds : List (Tree α σ)} {i : Nat} {e : Bool} : cs.length = ds.length →
      (∀ (n : Nat) c d, cs[n]? = some c → ds[n]? = some d → Akin A K c d) →
      (e = true → ∀ c d, cs[i]? = some c → ds[i]? = some d → InStep A L K c d) →
      InStep A L K (sequence cs i e) (sequence ds i e)
  | loop {k l : LoopKind σ} {cs ds : List (Tree α σ)} {i : Nat} {s e : Bool} : K k l → cs.length = ds.length →
      (∀ (n : Nat) c d, cs[n]? = some c → ds[n]? = some d → Akin A K c d) →
      (e = true → ∀ c d, cs[i]? = some c → ds[i]? = some d → InStep A L K c d) →
      InStep A L K (loop k cs i s e) (loop l ds i s e)

/-- Lists of children that are akin one by one. -/
structure Paired (A : α → α → Prop) (K : LoopKind σ → LoopKind σ → Prop) (cs ds : List (Tree α σ)) : Prop where
  length : cs.length = ds.length
  akin : ∀ (n : Nat) c d, cs[n]? = some c → ds[n]? = some d → Akin A K c d

theorem Paired.nil {A : α → α → Prop} {K : LoopKind σ → LoopKind σ → Prop} : Paired (σ := σ) A K [] [] := ⟨rfl, nofun⟩

/-- The children of two composites with the same cursor: akin one by one, and in step under the cursor if it is entered. -/
structure Matched (A L : α → α → Prop) (K : LoopKind σ → LoopKind σ → Prop) (i : Nat) (e : Bool) (cs ds : List (Tree α σ)) : Prop
    extends Paired A K cs ds where
  inStep : e = true → ∀ c d, cs[i]? = some c → ds[i]? = some d → InStep A L K c d

variable {A L : α → α → Prop} {K : LoopKind σ → LoopKind σ → Prop} {cs ds : List (Tree α σ)} {c d : Tree α σ} {i : Nat} {e : Bool}

/-- Sequences with matched children and the same cursor are in step. -/
theorem Matched.sequence (h : Matched A L K i e cs ds) : InStep A L K (sequence cs i e) (sequence ds i e) :=
  .sequence h.length h.akin h.inStep

/-- Loops with matched children and the same cursor are in step, if their tests are related. -/
theorem Matched.loop (h : Matched A L K i e cs ds) {k l : LoopKind σ} (hk : K k l) (s : Bool) :
    InStep A L K (loop k cs i s e) (loop l ds i s e) :=
  .loop hk h.length h.akin h.inStep

theorem Paired.cons (hcd : Akin A K c d) (h : Paired A K cs ds) : Paired A K (c :: cs) (d :: ds) where
  length := by simp [h.length]
  akin n c' d' hc hd := by
    cases n with
    | zero =>
      cases hc
      cases hd
      exact hcd
    | succ n => exact h.akin n c' d' hc hd

/-- Sequences with paired children are akin, whatever their cursors. -/
theorem Paired.akin_sequence (h : Paired A K cs ds) (i j : Nat) (e f : Bool) : Akin A K (sequence cs i e) (sequence ds j f) :=
  .sequence h.length h.akin

/-- Loops with paired children and related tests are akin, whatever their cursors. -/
theorem Paired.akin_loop (h : Paired A K cs ds) {k l : LoopKind σ} (hk : K k l) (i j : Nat) (s t e f : Bool) :
    Akin A K (loop k cs i s e) (loop l ds j t f) :=
  .loop hk h.length h.akin

/-- A tree is akin to itself if its leaves and loops are. -/
theorem akin_self {S : α → Prop} {T : LoopKind σ → Prop} (hA : ∀ b, S b → A b b) (hK : ∀ k, T k → K k k) {t : Tree α σ}
    (ht : All S T t) : Akin A K t t := by
  have hpaired : ∀ {cs : List (Tree α σ)}, (∀ c ∈ cs, Akin A K c c) → Paired A K cs cs := by
    refine fun h => ⟨rfl, fun n c d hc hd => ?_⟩
    obtain rfl : c = d := by simpa [hc] using hd
    exact h c (List.mem_of_getElem? hc)
  induction ht with
  | leaf hb => exact .leaf (hA _ hb)
  | sequence _ ih => exact (hpaired ih).akin_sequence _ _ _ _
  | loop hk _ ih => exact (hpaired ih).akin_loop (hK _ hk) _ _ _ _ _ _

/-- A child under the same index of both lists is replaced. -/
theorem Paired.set (h : Paired A K cs ds) (i : Nat) (hcd : Akin A K c d) : Paired A K (cs.set i c) (ds.set i d) where
  length := by simp [h.length]
  akin n c' d' hc hd := by
    by_cases hn : i = n
    · subst hn
      have hi : i < cs.length := by simpa using (List.getElem?_eq_some_iff.mp hc).1
      rw [List.getElem?_set_self hi] at hc
      rw [List.getElem?_set_self (h.length ▸ hi)] at hd
      cases hc
      cases hd
      exact hcd
    · rw [List.getElem?_set_ne hn] at hc hd
      exact h.akin n c' d' hc hd

/-- Both lists have a child at an index, or neither has. -/
theorem Paired.getElem? (h : Paired A K cs ds) (i : Nat) :
    (cs[i]? = none ∧ ds[i]? = none) ∨ ∃ c d, cs[i]? = some c ∧ ds[i]? = some d := by
  by_cases hi : i < cs.length
  · have hi' : i < ds.length := h.length ▸ hi
    exact Or.inr ⟨cs[i], ds[i], List.getElem?_eq_getElem hi, List.getElem?_eq_getElem hi'⟩
  · have hi' : ¬i < ds.length := h.length ▸ hi
    exact Or.inl ⟨List.getElem?_eq_none (Nat.not_lt.mp hi), List.getElem?_eq_none (Nat.not_lt.mp hi')⟩

/-- A child under the same index of both lists is replaced by one that is in step. -/
theorem Paired.matched_set (h : Paired A K cs ds) (i : Nat) (hcd : InStep A L K c d) (hakin : Akin A K c d) (e : Bool) :
    Matched A L K i e (cs.set i c) (ds.set i d) where
  toPaired := h.set i hakin
  inStep _ c' d' hc hd := by
    have hi : i < cs.length := by simpa using (List.getElem?_eq_some_iff.mp hc).1
    rw [List.getElem?_set_self hi] at hc
    rw [List.getElem?_set_self (h.length ▸ hi)] at hd
    cases hc
    cases hd
    exact hcd

variable {W : σ → σ → Prop} {w v : σ}

/-- An attempt of two composites to enter the child at the same index: what the children are like afterwards depends on the flag
that the composites then keep. -/
structure AttemptAlike (A L : α → α → Prop) (K : LoopKind σ → LoopKind σ → Prop) (W : σ → σ → Prop) (i : Nat)
    (x y : Outcome × List (Tree α σ) × σ) : Prop where
  answer : x.1 = y.1
  flag : entered x.1 x.2.1 i = entered y.1 y.2.1 i
  children : Matched A L K i (entered x.1 x.2.1 i) x.2.1 y.2.1
  world : W x.2.2 y.2.2

/-- Sequences are in step after attempts that end alike. -/
theorem AttemptAlike.sequence {x y : Outcome × List (Tree α σ) × σ} (h : AttemptAlike A L K W i x y) :
    InStep A L K (sequence x.2.1 i (entered x.1 x.2.1 i)) (sequence y.2.1 i (entered y.1 y.2.1 i)) :=
  h.flag ▸ h.children.sequence

/-- Loops with related tests are in step after attempts that end alike. -/
theorem AttemptAlike.loop {x y : Outcome × List (Tree α σ) × σ} (h : AttemptAlike A L K W i x y) {k l : LoopKind σ} (hk : K k l)
    (s : Bool) :
    InStep A L K (loop k x.2.1 i s (entered x.1 x.2.1 i)) (loop l y.2.1 i s (entered y.1 y.2.1 i)) :=
  h.flag ▸ h.children.loop hk s

/-- Whether an attempt left a child entered is decided by the attempt and the number of children. -/
theorem entered_congr (h : cs.length = ds.length) (r : Outcome) (i : Nat) : entered r cs i = entered r ds i := by
  simp [entered, h]

variable [Block α σ]

/-- What is in step is akin. -/
theorem akin_of_inStep (h : Lockstep A L W) (hcd : InStep A L K c d) : Akin A K c d := by
  cases hcd with
  | leaf hb => exact .leaf (h.akin hb)
  | sequence hlength hakin _ => exact .sequence hlength hakin
  | loop hk hlength hakin _ => exact .loop hk hlength hakin

/-! ## Entering -/

/-- Entering two trees: they answer alike, and get in step unless they could not be entered. -/
structure EnterAlike (A L : α → α → Prop) (K : LoopKind σ → LoopKind σ → Prop) (W : σ → σ → Prop) (c d : Tree α σ) (w v : σ) :
    Prop where
  agree : Agree (Akin A K) W (enter c w) (enter d v)
  inStep : (enter c w).1 = .ok () → InStep A L K (enter c w).2.1 (enter d v).2.1

/-- Lists of children that are akin and get in step when they are entered. -/
def EnterableAlike (A L : α → α → Prop) (K : LoopKind σ → LoopKind σ → Prop) (W : σ → σ → Prop) (cs ds : List (Tree α σ)) : Prop :=
  ∀ (n : Nat) c d, cs[n]? = some c → ds[n]? = some d → ∀ w v, W w v → EnterAlike A L K W c d w v

/-- Attempts to enter paired children end alike. -/
theorem enterAt_alike (h : Paired A K cs ds) (henter : EnterableAlike A L K W cs ds) (i : Nat) (hw : W w v) :
    AttemptAlike A L K W i (enterAt cs i w) (enterAt ds i v) := by
  rw [enterAt_eq, enterAt_eq]
  rcases h.getElem? i with ⟨hc, hd⟩ | ⟨c, d, hc, hd⟩
  · rw [hc, hd]
    exact ⟨rfl, entered_congr h.length _ i, ⟨h, fun _ c d hc' => by simp [hc] at hc'⟩, hw⟩
  · rw [hc, hd]
    obtain ⟨⟨hanswer, hakin, hworld⟩, hstep⟩ := henter i c d hc hd w v hw
    have hlength : (cs.set i (enter c w).2.1).length = (ds.set i (enter d v).2.1).length := by simp [h.length]
    refine ⟨hanswer, ?_, ⟨h.set i hakin, fun hflag => ?_⟩, hworld⟩
    · simp only [← hanswer]
      exact entered_congr hlength _ i
    · have hok : (enter c w).1 = .ok () := by
        cases hr : (enter c w).1 with
        | error e => simp [entered, hr, Except.isOk, Except.toBool] at hflag
        | ok u => rfl
      exact (h.matched_set i (hstep hok) hakin true).inStep rfl

/-- Entering sequences with paired children agrees, whatever their cursors. -/
theorem enter_sequence_agree (h : Paired A K cs ds) (henter : EnterableAlike A L K W cs ds) (hw : W w v) (i j : Nat) (e f : Bool) :
    Agree (InStep A L K) W (enter (sequence cs i e) w) (enter (sequence ds j f) v) := by
  have hattempt := enterAt_alike h henter 0 hw
  exact ⟨hattempt.answer, hattempt.sequence, hattempt.world⟩

/-- Entering loops with paired children agrees, if their tests do. -/
theorem enter_loop_agree {k l : LoopKind σ} (hk : K k l) (htest : TestsAgree W k l) (h : Paired A K cs ds)
    (henter : EnterableAlike A L K W cs ds) (hw : W w v) (i j : Nat) (s t e f : Bool) :
    Agree (InStep A L K) W (enter (loop k cs i s e) w) (enter (loop l ds j t f) v) := by
  obtain ⟨stop, w', v', hkw, hlv, hw'⟩ := htest w v hw
  cases stop with
  | true =>
    rw [enter_loop_stop hkw, enter_loop_stop hlv]
    exact ⟨rfl, .loop hk h.length h.akin nofun, hw'⟩
  | false =>
    have hattempt := enterAt_alike h henter 0 hw'
    rw [enter_loop_start hkw, enter_loop_start hlv]
    exact ⟨hattempt.answer, hattempt.loop hk false, hattempt.world⟩

/-- Trees that get in step whatever the answer are akin afterwards in particular. -/
theorem EnterAlike.of_agree (h : Lockstep A L W) (hagree : Agree (InStep A L K) W (enter c w) (enter d v)) :
    EnterAlike A L K W c d w v :=
  ⟨⟨hagree.answer, akin_of_inStep h hagree.block, hagree.world⟩, fun _ => hagree.block⟩

/-- Trees that are akin are in step once they are entered. -/
theorem enter_alike (h : Lockstep A L W) (hK : ∀ k l, K k l → TestsAgree W k l) (hcd : Akin A K c d) :
    ∀ w v, W w v → EnterAlike A L K W c d w v := by
  induction hcd with
  | leaf hb =>
    intro w v hw
    obtain ⟨hanswer, hakin, hworld⟩ := h.enter hb hw
    exact ⟨⟨hanswer, .leaf hakin, hworld⟩, fun hok => .leaf (h.entered hb hw hok)⟩
  | sequence hlength hakin ih =>
    intro w v hw
    exact .of_agree h (enter_sequence_agree ⟨hlength, hakin⟩ ih hw _ _ _ _)
  | loop hk hlength hakin ih =>
    intro w v hw
    exact .of_agree h (enter_loop_agree hk (hK _ _ hk) ⟨hlength, hakin⟩ ih hw _ _ _ _ _ _)

/-- Children that are akin get in step when they are entered. -/
theorem Paired.enterable (h : Lockstep A L W) (hK : ∀ k l, K k l → TestsAgree W k l) (hcs : Paired A K cs ds) :
    EnterableAlike A L K W cs ds :=
  fun n c d hc hd => enter_alike h hK (hcs.akin n c d hc hd)

/-- Trees that are in step stay so when they are entered again. -/
theorem inStep_enter (h : Lockstep A L W) (hK : ∀ k l, K k l → TestsAgree W k l) (hcd : InStep A L K c d) (hw : W w v) :
    InStep A L K (enter c w).2.1 (enter d v).2.1 := by
  cases hcd with
  | leaf hb => exact .leaf (h.reenter hb hw)
  | sequence hlength hakin _ =>
    have hcs : Paired A K _ _ := ⟨hlength, hakin⟩
    exact (enter_sequence_agree hcs (hcs.enterable h hK) hw _ _ _ _).block
  | loop hk hlength hakin _ =>
    have hcs : Paired A K _ _ := ⟨hlength, hakin⟩
    exact (enter_loop_agree hk (hK _ _ hk) hcs (hcs.enterable h hK) hw _ _ _ _ _ _).block

/-! ## Exiting -/

/-- Exiting two trees leaves them in step and the worlds related. -/
def ExitAlike (A L : α → α → Prop) (K : LoopKind σ → LoopKind σ → Prop) (W : σ → σ → Prop) (c d : Tree α σ) (w v : σ) : Prop :=
  InStep A L K (exit c w).1 (exit d v).1 ∧ W (exit c w).2 (exit d v).2

/-- Exiting paired children keeps them paired. -/
theorem exitAt_alike (h : Lockstep A L W) (hcs : Paired A K cs ds)
    (hexit : ∀ c d, cs[i]? = some c → ds[i]? = some d → ExitAlike A L K W c d w v) (hw : W w v) :
    Paired A K (exitAt cs i w).1 (exitAt ds i v).1 ∧ W (exitAt cs i w).2 (exitAt ds i v).2 := by
  rw [exitAt_eq, exitAt_eq]
  rcases hcs.getElem? i with ⟨hc, hd⟩ | ⟨c, d, hc, hd⟩
  · rw [hc, hd]
    exact ⟨hcs, hw⟩
  · rw [hc, hd]
    obtain ⟨hstep, hw'⟩ := hexit c d hc hd
    exact ⟨hcs.set i (akin_of_inStep h hstep), hw'⟩

/-- Trees in step are exited alike. -/
theorem exit_alike (h : Lockstep A L W) (hcd : InStep A L K c d) : ∀ w v, W w v → ExitAlike A L K W c d w v := by
  induction hcd with
  | leaf hb =>
    intro w v hw
    exact ⟨.leaf (h.exit hb hw).1, (h.exit hb hw).2⟩
  | @sequence cs ds i e hlength hakin hstep ih =>
    intro w v hw
    cases e with
    | false => exact ⟨.sequence hlength hakin nofun, hw⟩
    | true =>
      obtain ⟨hcs, hw'⟩ := exitAt_alike h ⟨hlength, hakin⟩ (fun c d hc hd => ih rfl c d hc hd w v hw) hw
      exact ⟨.sequence hcs.length hcs.akin nofun, hw'⟩
  | @loop k l cs ds i s e hk hlength hakin hstep ih =>
    intro w v hw
    cases e with
    | false => exact ⟨.loop hk hlength hakin nofun, hw⟩
    | true =>
      obtain ⟨hcs, hw'⟩ := exitAt_alike h ⟨hlength, hakin⟩ (fun c d hc hd => ih rfl c d hc hd w v hw) hw
      exact ⟨.loop hk hcs.length hcs.akin nofun, hw'⟩

/-! ## Ticking -/

/-- Trees in step are complete together. -/
theorem isComplete_alike (h : Lockstep A L W) (hcd : InStep A L K c d) (hw : W w v) : isComplete c w = isComplete d v := by
  cases hcd with
  | leaf hb => exact h.isComplete hb hw
  | sequence hlength _ _ => simp [isComplete, hlength]
  | loop => rfl

/-- Running two trees leaves them in step. -/
def RunAlike (A L : α → α → Prop) (K : LoopKind σ → LoopKind σ → Prop) (W : σ → σ → Prop) (dt : Float) (c d : Tree α σ) (w v : σ) :
    Prop :=
  Agree (InStep A L K) W (run dt c w) (run dt d v)

/-- Children that run alike have the same share of a tick. -/
theorem stepChild_alike (h : Lockstep A L W) {dt : Float} (hrun : RunAlike A L K W dt c d w v) :
    Agree (InStep A L K) W (stepChild dt c w) (stepChild dt d v) := by
  obtain ⟨hanswer, hstep, hw'⟩ := hrun
  unfold stepChild
  rcases hc : run dt c w with ⟨r, c', w'⟩
  rcases hd : run dt d v with ⟨r', d', v'⟩
  rw [hc, hd] at hanswer hstep hw'
  obtain rfl : r = r' := hanswer
  cases r with
  | error err => exact ⟨rfl, hstep, hw'⟩
  | ok u =>
    have hdone : isComplete c' w' = isComplete d' v' := isComplete_alike h hstep hw'
    simp only [hdone]
    cases isComplete d' v' with
    | false => exact ⟨rfl, hstep, hw'⟩
    | true =>
      obtain ⟨hexited, hw''⟩ := exit_alike h hstep w' v' hw'
      exact ⟨rfl, hexited, hw''⟩

/-- Running the children under the same index, which are in step: they stay so, and all others stay as they were. -/
theorem runAt_alike (h : Lockstep A L W) {dt : Float} (hcs : Paired A K cs ds)
    (hrun : ∀ c d, cs[i]? = some c → ds[i]? = some d → RunAlike A L K W dt c d w v) (hw : W w v) :
    Agree (Matched A L K i true) W (runAt dt cs i w) (runAt dt ds i v) := by
  rw [runAt_eq, runAt_eq]
  rcases hcs.getElem? i with ⟨hc, hd⟩ | ⟨c, d, hc, hd⟩
  · rw [hc, hd]
    exact ⟨rfl, ⟨hcs, fun _ c d hc' => by simp [hc] at hc'⟩, hw⟩
  · rw [hc, hd]
    obtain ⟨hanswer, hstep, hw'⟩ := stepChild_alike h (hrun c d hc hd)
    exact ⟨hanswer, hcs.matched_set i hstep (akin_of_inStep h hstep) true, hw'⟩

/-- Entering a child of two composites, for the first time or again. -/
theorem Paired.attempt (h : Lockstep A L W) (hK : ∀ k l, K k l → TestsAgree W k l) (hcs : Paired A K cs ds) (i : Nat) (hw : W w v) :
    AttemptAlike A L K W i (enterAt cs i w) (enterAt ds i v) :=
  enterAt_alike hcs (hcs.enterable h hK) i hw

/-- Sequences in step run alike, if the children at their cursors do. -/
theorem run_sequence_alike (h : Lockstep A L W) (hK : ∀ k l, K k l → TestsAgree W k l) {dt : Float} (hcs : Paired A K cs ds)
    (hstep : e = true → ∀ c d, cs[i]? = some c → ds[i]? = some d → InStep A L K c d)
    (hrun : e = true → ∀ c d, cs[i]? = some c → ds[i]? = some d → RunAlike A L K W dt c d w v) (hw : W w v) :
    RunAlike A L K W dt (sequence cs i e) (sequence ds i e) w v := by
  rcases Nat.lt_or_ge i cs.length with hi | hi
  · have hi' : i < ds.length := hcs.length ▸ hi
    unfold RunAlike
    cases e with
    | false =>
      have hattempt := hcs.attempt h hK i hw
      rw [run_sequence_retry hi, run_sequence_retry hi']
      exact ⟨hattempt.answer, hattempt.sequence, hattempt.world⟩
    | true =>
      have hchild := runAt_alike h hcs (hrun rfl) hw
      rcases hc : runAt dt cs i w with ⟨r, cs', w'⟩
      rcases hd : runAt dt ds i v with ⟨r', ds', v'⟩
      rw [hc, hd] at hchild
      obtain ⟨rfl, hcs', hw'⟩ := hchild
      match r with
      | .error err =>
        rw [run_sequence_error hi hc, run_sequence_error hi' hd]
        exact ⟨rfl, hcs'.sequence, hw'⟩
      | .ok false =>
        rw [run_sequence_busy hi hc, run_sequence_busy hi' hd]
        exact ⟨rfl, hcs'.sequence, hw'⟩
      | .ok true =>
        have hattempt := hcs'.attempt h hK (i + 1) hw'
        rw [run_sequence_next hi hc, run_sequence_next hi' hd]
        exact ⟨hattempt.answer, hattempt.sequence, hattempt.world⟩
  · unfold RunAlike
    rw [run_sequence_done hi, run_sequence_done (hcs.length ▸ hi)]
    exact ⟨rfl, .sequence hcs.length hcs.akin hstep, hw⟩

/-- Loops in step run alike, if the children at their cursors do. -/
theorem run_loop_alike (h : Lockstep A L W) (hK : ∀ k l, K k l → TestsAgree W k l) {dt : Float} {k l : LoopKind σ} (hk : K k l)
    (hcs : Paired A K cs ds) (hstep : e = true → ∀ c d, cs[i]? = some c → ds[i]? = some d → InStep A L K c d)
    (hrun : e = true → ∀ c d, cs[i]? = some c → ds[i]? = some d → ∀ w v, W w v → RunAlike A L K W dt c d w v) (s : Bool)
    (hw : W w v) : RunAlike A L K W dt (loop k cs i s e) (loop l ds i s e) w v := by
  unfold RunAlike
  by_cases hidle : s = true ∨ cs = []
  · have hidle' : s = true ∨ ds = [] := hidle.imp_right fun hnil => List.eq_nil_of_length_eq_zero (by simp [← hcs.length, hnil])
    rw [run_loop_idle hidle, run_loop_idle hidle']
    exact ⟨rfl, .loop hk hcs.length hcs.akin hstep, hw⟩
  · obtain ⟨hs, hne⟩ := not_or.mp hidle
    obtain rfl : s = false := by simpa using hs
    have hne' : ds ≠ [] := fun hnil => hne (List.eq_nil_of_length_eq_zero (by simp [hcs.length, hnil]))
    obtain ⟨stop, w', v', hkw, hlv, hw'⟩ := hK k l hk w v hw
    cases stop with
    | true =>
      rw [run_loop_stop hne hkw, run_loop_stop hne' hlv]
      exact ⟨rfl, .loop hk hcs.length hcs.akin hstep, hw'⟩
    | false =>
      cases e with
      | false =>
        have hattempt := hcs.attempt h hK i hw'
        rw [run_loop_retry hne hkw, run_loop_retry hne' hlv]
        exact ⟨hattempt.answer, hattempt.loop hk false, hattempt.world⟩
      | true =>
        have hchild := runAt_alike h hcs (fun c d hc hd => hrun rfl c d hc hd w' v' hw') hw'
        rcases hc : runAt dt cs i w' with ⟨r, cs', w''⟩
        rcases hd : runAt dt ds i v' with ⟨r', ds', v''⟩
        rw [hc, hd] at hchild
        obtain ⟨rfl, hcs', hw''⟩ := hchild
        match r with
        | .error err =>
          rw [run_loop_error hne hkw hc, run_loop_error hne' hlv hd]
          exact ⟨rfl, hcs'.loop hk false, hw''⟩
        | .ok false =>
          rw [run_loop_busy hne hkw hc, run_loop_busy hne' hlv hd]
          exact ⟨rfl, hcs'.loop hk false, hw''⟩
        | .ok true =>
          rcases Nat.lt_or_ge (i + 1) cs'.length with hi | hi
          · have hattempt := hcs'.attempt h hK (i + 1) hw''
            rw [run_loop_next hne hkw hc hi, run_loop_next hne' hlv hd (hcs'.length ▸ hi)]
            exact ⟨hattempt.answer, hattempt.loop hk false, hattempt.world⟩
          · have hi' : ds'.length ≤ i + 1 := hcs'.length ▸ hi
            obtain ⟨stop, w₃, v₃, hkw', hlv', hw₃⟩ := hK k l hk w'' v'' hw''
            cases stop with
            | true =>
              rw [run_loop_finish hne hkw hc hi hkw', run_loop_finish hne' hlv hd hi' hlv']
              exact ⟨rfl, .loop hk hcs'.length hcs'.akin nofun, hw₃⟩
            | false =>
              have hattempt := hcs'.attempt h hK 0 hw₃
              rw [run_loop_wrap hne hkw hc hi hkw', run_loop_wrap hne' hlv hd hi' hlv']
              exact ⟨hattempt.answer, hattempt.loop hk false, hattempt.world⟩

/-- Trees in step run alike. -/
theorem run_alike (h : Lockstep A L W) (hK : ∀ k l, K k l → TestsAgree W k l) (dt : Float) (hcd : InStep A L K c d) :
    ∀ w v, W w v → RunAlike A L K W dt c d w v := by
  induction hcd with
  | leaf hb =>
    intro w v hw
    obtain ⟨hanswer, hstep, hw'⟩ := h.run dt hb hw
    exact ⟨hanswer, .leaf hstep, hw'⟩
  | sequence hlength hakin hstep ih =>
    intro w v hw
    exact run_sequence_alike h hK ⟨hlength, hakin⟩ hstep (fun he c d hc hd => ih he c d hc hd w v hw) hw
  | loop hk hlength hakin hstep ih =>
    intro w v hw
    exact run_loop_alike h hK hk ⟨hlength, hakin⟩ hstep ih _ hw

/-- Trees keep step as their leaves do. -/
theorem lockstep (h : Lockstep A L W) (hK : ∀ k l, K k l → TestsAgree W k l) :
    Lockstep (Akin A K) (InStep A L K) W where
  akin := akin_of_inStep h
  enter hcd hw := (enter_alike h hK hcd _ _ hw).agree
  entered hcd hw := (enter_alike h hK hcd _ _ hw).inStep
  reenter hcd hw := inStep_enter h hK hcd hw
  run dt hcd hw := run_alike h hK dt hcd _ _ hw
  exit hcd hw := exit_alike h hcd _ _ hw
  isComplete hcd hw := isComplete_alike h hcd hw

end Tree

/-! ## Built-in leaves -/

section

variable {σ : Type v} {W : σ → σ → Prop}

/-- A callback, a test or the reading of a clock answers alike in related worlds and leaves them related. -/
def RespondsAlike {γ : Type w} (W : σ → σ → Prop) (f : σ → γ × σ) : Prop :=
  ∀ w v, W w v → (f w).1 = (f v).1 ∧ W (f w).2 (f v).2

/-- What a leaf calls answers alike in related worlds and leaves them related. -/
def Primitive.Respects (W : σ → σ → Prop) : Primitive σ → Prop
  | .execute callback _ => RespondsAlike W callback
  | .wait _ _ _ clock => RespondsAlike W clock.currentTime
  | .condition test _ => RespondsAlike W test

/-- Leaves that differ at most in what earlier activations left in them. -/
inductive Primitive.Akin : Primitive σ → Primitive σ → Prop where
  | execute (callback : σ → Outcome × σ) (executed executed' : Bool) :
      Akin (.execute callback executed) (.execute callback executed')
  | wait (duration start now start' now' : Float) (clock : ActionsHandle σ) :
      Akin (.wait duration start now clock) (.wait duration start' now' clock)
  | condition (test : σ → Bool × σ) (result result' : Bool) : Akin (.condition test result) (.condition test result')

theorem Primitive.Akin.refl (b : Primitive σ) : b.Akin b := by
  cases b with
  | execute callback executed => exact .execute callback executed executed
  | wait duration start now clock => exact .wait duration start now start now clock
  | condition test result => exact .condition test result result

/-- Entering a leaf does not change what it is made of. -/
theorem Primitive.akin_enter (b : Primitive σ) (w : σ) : b.Akin (b.enter w).2.1 := by
  cases b with
  | execute callback executed => exact .execute callback executed false
  | condition test result => exact .condition test result false
  | wait duration start now clock =>
    simp only [enter]
    rcases clock.currentTime w with ⟨e | t, w'⟩
    · exact .wait duration start now start now clock
    · exact .wait duration start now t t clock

/-- Running a leaf does not change what it is made of. -/
theorem Primitive.akin_run (b : Primitive σ) (w : σ) : b.Akin (b.run w).2.1 := by
  cases b with
  | execute callback executed =>
    cases executed with
    | true => exact .execute callback true true
    | false => exact .execute callback false true
  | condition test result => exact .condition test result (test w).1
  | wait duration start now clock =>
    simp only [run]
    rcases clock.currentTime w with ⟨e | t, w'⟩
    · exact .wait duration start now start now clock
    · exact .wait duration start now start t clock

/-- Entering a leaf discards all that was left in it, unless its clock cannot be read. -/
theorem Primitive.enter_alike {b c : Primitive σ} {w v : σ} (hbc : b.Akin c) (hb : b.Respects W) (hw : W w v) :
    Agree Akin W (b.enter w) (c.enter v) ∧ (b = c ∨ (b.enter w).1 = .ok () → (b.enter w).2.1 = (c.enter v).2.1) := by
  cases hbc with
  | execute callback => exact ⟨⟨rfl, .refl _, hw⟩, fun _ => rfl⟩
  | condition test => exact ⟨⟨rfl, .refl _, hw⟩, fun _ => rfl⟩
  | wait duration start now start' now' clock =>
    have hread := hb w v hw
    simp only [enter]
    rcases hb' : clock.currentTime w with ⟨r, w'⟩
    rcases hc' : clock.currentTime v with ⟨r', v'⟩
    rw [hb', hc'] at hread
    obtain ⟨rfl, hw'⟩ : r = r' ∧ W w' v' := hread
    cases r with
    | error e => exact ⟨⟨rfl, .wait duration start now start' now' clock, hw'⟩, fun hor => hor.resolve_right (by simp)⟩
    | ok t => exact ⟨⟨rfl, .refl _, hw'⟩, fun _ => rfl⟩

/-- A leaf that calls what answers alike runs alike. -/
theorem Primitive.run_alike {b : Primitive σ} {w v : σ} (hb : b.Respects W) (hw : W w v) :
    Agree Eq W (b.run w) (b.run v) := by
  cases b with
  | execute callback executed =>
    cases executed with
    | true => exact ⟨rfl, rfl, hw⟩
    | false => exact ⟨(hb w v hw).1, rfl, (hb w v hw).2⟩
  | condition test result =>
    obtain ⟨hanswer, hw'⟩ := hb w v hw
    exact ⟨rfl, congrArg (Primitive.condition test) hanswer, hw'⟩
  | wait duration start now clock =>
    have hread := hb w v hw
    simp only [run]
    rcases hb' : clock.currentTime w with ⟨r, w'⟩
    rcases hc' : clock.currentTime v with ⟨r', v'⟩
    rw [hb', hc'] at hread
    obtain ⟨rfl, hw'⟩ : r = r' ∧ W w' v' := hread
    cases r with
    | error e => exact ⟨rfl, rfl, hw'⟩
    | ok t => exact ⟨rfl, rfl, hw'⟩

/-- What follows from what a leaf calls, and lasts as long as the leaf calls the same, is upheld if it keeps `I` and `Q`. -/
theorem Primitive.upholds_of_lasting {S : Primitive σ → Prop} {I : σ → Prop} {Q : Outcome → Prop} (hQ : Q (.ok ()))
    (hlasting : ∀ {b c : Primitive σ}, b.Akin c → S b → S c) (hkeeps : ∀ {b : Primitive σ}, S b → b.Keeps I Q) :
    Upholds S I Q where
  create b w hb hw := ⟨hb, hw⟩
  destroy b w hb hw := ⟨hb, hw⟩
  enter b w hb hw := by
    obtain ⟨hq, -, hw'⟩ := (Primitive.upholds hQ).enter b w (hkeeps hb) hw
    exact ⟨hq, hlasting (b.akin_enter w) hb, hw'⟩
  run dt b w hb hw := by
    obtain ⟨hq, -, hw'⟩ := (Primitive.upholds hQ).run dt b w (hkeeps hb) hw
    exact ⟨hq, hlasting (b.akin_run w) hb, hw'⟩
  exit b w hb hw := ⟨hb, hw⟩

/-- Equal leaves stay equal in worlds that they cannot tell apart, and leaves of the same kind become equal when they are entered.
`S` is what is known of the leaves whatever was left in them. -/
theorem Primitive.lockstep {S : Primitive σ → Prop} (hlasting : ∀ {b c : Primitive σ}, b.Akin c → S b → S c)
    (hS : ∀ {b : Primitive σ}, S b → b.Respects W) :
    Lockstep (fun b c : Primitive σ => b.Akin c ∧ S b) (fun b c => b = c ∧ S b) W where
  akin := by
    rintro b _ ⟨rfl, hb⟩
    exact ⟨.refl b, hb⟩
  enter {b c w v} hbc hw := by
    obtain ⟨hanswer, hakin, hworld⟩ := (enter_alike hbc.1 (hS hbc.2) hw).1
    exact ⟨hanswer, ⟨hakin, hlasting (b.akin_enter w) hbc.2⟩, hworld⟩
  entered {b c w v} hbc hw hok :=
    ⟨(enter_alike hbc.1 (hS hbc.2) hw).2 (Or.inr hok), hlasting (b.akin_enter w) hbc.2⟩
  reenter := by
    rintro b _ w v ⟨rfl, hb⟩ hw
    exact ⟨(enter_alike (.refl b) (hS hb) hw).2 (Or.inl rfl), hlasting (b.akin_enter w) hb⟩
  run := by
    rintro b _ w v dt ⟨rfl, hb⟩ hw
    obtain ⟨hanswer, hequal, hworld⟩ := run_alike (hS hb) hw
    exact ⟨hanswer, ⟨hequal, hlasting (b.akin_run w) hb⟩, hworld⟩
  exit := by
    rintro b _ w v ⟨rfl, hb⟩ hw
    exact ⟨⟨rfl, hb⟩, hw⟩
  isComplete := by
    rintro b _ w v ⟨rfl, -⟩ hw
    rfl

end

end BlockScript
