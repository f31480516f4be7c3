import BlockScript.Proofs.Block.Lockstep
import Mathlib.Data.List.Forall2

/-!
# Blocks that mirror each other

Two blocks, of types and in worlds that may differ, compared call by call. `Mirror R W D` says that blocks related by `R`, in worlds
related by `W`, end every call alike and stay related, if the lengths of their ticks are related by `D`. If this holds of the leaves of
trees, it holds of trees that have the same shape and the same cursors (`Tree.mirror`). Unlike blocks in lockstep, blocks that mirror
each other do so in all their parts, entered or not, so a tree that mirrors one like it is the same tree (`Tree.Mirrors.eq`).
-/

namespace BlockScript

/-- Two calls ended alike and left related blocks in related worlds. -/
structure Mirrored {γ : Type x} {β : Type u} {β' : Type u'} {σ : Type v} {τ : Type v'} (R : β → β' → Prop) (W : σ → τ → Prop)
    (one : γ × β × σ) (other : γ × β' × τ) : Prop where
  answer : one.1 = other.1
  block : R one.2.1 other.2.1
  world : W one.2.2 other.2.2

/-- All calls on related blocks in related worlds end alike and leave related blocks and worlds. -/
structure Mirror {β : Type u} {β' : Type u'} {σ : Type v} {τ : Type v'} [Block β σ] [Block β' τ] (R : β → β' → Prop)
    (W : σ → τ → Prop) (D : Float → Float → Prop) : Prop where
  create : ∀ {b c w v}, R b c → W w v → R (Block.create b w).1 (Block.create c v).1 ∧ W (Block.create b w).2 (Block.create c v).2
  destroy : ∀ {b c w v}, R b c → W w v →
    R (Block.destroy b w).1 (Block.destroy c v).1 ∧ W (Block.destroy b w).2 (Block.destroy c v).2
  enter : ∀ {b c w v}, R b c → W w v → Mirrored R W (Block.enter b w) (Block.enter c v)
  run : ∀ {dt dt'}, D dt dt' → ∀ {b c w v}, R b c → W w v → Mirrored R W (Block.run dt b w) (Block.run dt' c v)
  exit : ∀ {b c w v}, R b c → W w v → R (Block.exit b w).1 (Block.exit c v).1 ∧ W (Block.exit b w).2 (Block.exit c v).2
  isComplete : ∀ {b c w v}, R b c → W w v → Block.isComplete b w = Block.isComplete c v

/-- Two callbacks, tests or readings of a clock answer alike in related worlds and leave related worlds. -/
def Responds {γ : Type x} {σ : Type v} {τ : Type v'} (W : σ → τ → Prop) (f : σ → γ × σ) (g : τ → γ × τ) : Prop :=
  ∀ w v, W w v → (f w).1 = (g v).1 ∧ W (f w).2 (g v).2

/-! ## Lists that are related member by member -/

section

variable {β : Type u} {β' : Type u'} {R : β → β' → Prop} {bs : List β} {cs : List β'}

/-- At each index there are related members or none. -/
theorem forall₂_getElem? (h : List.Forall₂ R bs cs) (i : Nat) :
    (bs[i]? = none ∧ cs[i]? = none) ∨ ∃ b c, bs[i]? = some b ∧ cs[i]? = some c ∧ R b c := by
  induction h generalizing i with
  | nil => exact .inl ⟨rfl, rfl⟩
  | @cons b c _ _ hbc _ ih =>
    cases i with
    | zero => exact .inr ⟨b, c, rfl, rfl, hbc⟩
    | succ i => exact ih i

/-- Lists stay related where related members are replaced on both sides. -/
theorem forall₂_set (h : List.Forall₂ R bs cs) (i : Nat) {b : β} {c : β'} (hbc : R b c) :
    List.Forall₂ R (bs.set i b) (cs.set i c) := by
  induction h generalizing i with
  | nil => exact .nil
  | cons hfirst hrest ih =>
    cases i with
    | zero => exact .cons hbc hrest
    | succ i => exact .cons hfirst (ih i)

end

/-! ## Leaves -/

section

variable {σ : Type v} {τ : Type v'} {W : σ → τ → Prop} {D : Float → Float → Prop}

/-- Leaves of the same kind and in the same state, whose callbacks, clocks and tests respond together. -/
inductive Primitive.Mirrors (W : σ → τ → Prop) : Primitive σ → Primitive τ → Prop where
  | execute {f : σ → Outcome × σ} {g : τ → Outcome × τ} (executed : Bool) : Responds W f g →
      Mirrors W (.execute f executed) (.execute g executed)
  | wait {h : ActionsHandle σ} {k : ActionsHandle τ} (duration start now : Float) : Responds W h.currentTime k.currentTime →
      Mirrors W (.wait duration start now h) (.wait duration start now k)
  | condition {f : σ → Bool × σ} {g : τ → Bool × τ} (result : Bool) : Responds W f g →
      Mirrors W (.condition f result) (.condition g result)

/-- Leaves that mirror each other are entered alike and still do. -/
theorem Primitive.Mirrors.enter {b : Primitive σ} {c : Primitive τ} (h : Primitive.Mirrors W b c) {w : σ} {v : τ} (hw : W w v) :
    Mirrored (Primitive.Mirrors W) W (b.enter w) (c.enter v) := by
  cases h with
  | execute executed hf => exact ⟨rfl, .execute false hf, hw⟩
  | condition result hf => exact ⟨rfl, .condition false hf, hw⟩
  | @wait clock clock' duration start now hclock =>
    have hread := hclock w v hw
    simp only [Primitive.enter]
    rcases hr : clock.currentTime w with ⟨r, w'⟩
    rcases hr' : clock'.currentTime v with ⟨r', v'⟩
    rw [hr, hr'] at hread
    obtain ⟨rfl, hw'⟩ : r = r' ∧ W w' v' := hread
    cases r with
    | error e => exact ⟨rfl, .wait duration start now hclock, hw'⟩
    | ok t => exact ⟨rfl, .wait duration t t hclock, hw'⟩

/-- Leaves that mirror each other run alike and still do. -/
theorem Primitive.Mirrors.run {b : Primitive σ} {c : Primitive τ} (h : Primitive.Mirrors W b c) {w : σ} {v : τ} (hw : W w v) :
    Mirrored (Primitive.Mirrors W) W (b.run w) (c.run v) := by
  cases h with
  | execute executed hf =>
    cases executed with
    | true => exact ⟨rfl, .execute true hf, hw⟩
    | false => exact ⟨(hf w v hw).1, .execute true hf, (hf w v hw).2⟩
  | @condition f g result hf =>
    obtain ⟨hanswer, hw'⟩ := hf w v hw
    have hblock : Primitive.Mirrors W (.condition f (f w).1) (.condition g (f w).1) := .condition (f w).1 hf
    exact ⟨rfl, by simpa only [Primitive.run, ← hanswer] using hblock, hw'⟩
  | @wait clock clock' duration start now hclock =>
    have hread := hclock w v hw
    simp only [Primitive.run]
    rcases hr : clock.currentTime w with ⟨r, w'⟩
    rcases hr' : clock'.currentTime v with ⟨r', v'⟩
    rw [hr, hr'] at hread
    obtain ⟨rfl, hw'⟩ : r = r' ∧ W w' v' := hread
    cases r with
    | error e => exact ⟨rfl, .wait duration start now hclock, hw'⟩
    | ok t => exact ⟨rfl, .wait duration start t hclock, hw'⟩

/-- Built-in leaves mirror each other whatever the lengths of their ticks. -/
theorem Primitive.mirror : Mirror (Primitive.Mirrors W) W D where
  create h hw := ⟨h, hw⟩
  destroy h hw := ⟨h, hw⟩
  enter h hw := h.enter hw
  run _ _ _ _ _ h hw := h.run hw
  exit h hw := ⟨h, hw⟩
  isComplete h hw := by cases h <;> rfl

/-- A leaf that calls what answers alike in related worlds is the same leaf after every call. `S` is what is known of the leaf
whatever was left in it. -/
theorem Primitive.mirror_self {W : σ → σ → Prop} {S : Primitive σ → Prop} (hlasting : ∀ {b c : Primitive σ}, b.Akin c → S b → S c)
    (hS : ∀ {b : Primitive σ}, S b → b.Respects W) : Mirror (fun b c : Primitive σ => b = c ∧ S b) W D where
  create h hw := ⟨h, hw⟩
  destroy h hw := ⟨h, hw⟩
  enter {b c w v} h hw := by
    obtain ⟨rfl, hb⟩ := h
    obtain ⟨⟨hanswer, -, hworld⟩, hequal⟩ := Primitive.enter_alike (.refl b) (hS hb) hw
    exact ⟨hanswer, ⟨hequal (.inl rfl), hlasting (b.akin_enter w) hb⟩, hworld⟩
  run _ b c w v h hw := by
    obtain ⟨rfl, hb⟩ := h
    obtain ⟨hanswer, hequal, hworld⟩ := Primitive.run_alike (hS hb) hw
    exact ⟨hanswer, ⟨hequal, hlasting (b.akin_run w) hb⟩, hworld⟩
  exit h hw := ⟨h, hw⟩
  isComplete h _ := by
    obtain ⟨rfl, -⟩ := h
    rfl

end

/-! ## Trees -/

namespace Tree

variable {α : Type u} {α' : Type u'} {σ : Type v} {τ : Type v'}

/-- Trees of the same shape and with the same cursors, with related leaves and loops. -/
inductive Mirrors (L : α → α' → Prop) (K : LoopKind σ → LoopKind τ → Prop) : Tree α σ → Tree α' τ → Prop where
  | leaf {b : α} {c : α'} : L b c → Mirrors L K (leaf b) (leaf c)
  | sequence {cs : List (Tree α σ)} {ds : List (Tree α' τ)} {i : Nat} {e : Bool} : List.Forall₂ (Mirrors L K) cs ds →
      Mirrors L K (sequence cs i e) (sequence ds i e)
  | loop {k : LoopKind σ} {l : LoopKind τ} {cs : List (Tree α σ)} {ds : List (Tree α' τ)} {i : Nat} {s e : Bool} : K k l →
      List.Forall₂ (Mirrors L K) cs ds → Mirrors L K (loop k cs i s e) (loop l ds i s e)

/-- Trees that mirror each other with equal leaves and loops are equal, and all their leaves and loops are as known. -/
theorem Mirrors.eq {S : α → Prop} {T : LoopKind σ → Prop} {t u : Tree α σ}
    (h : Mirrors (fun b c => b = c ∧ S b) (fun k l => k = l ∧ T k) t u) : t = u ∧ All S T t := by
  have hlists : ∀ {cs ds : List (Tree α σ)}, List.Forall₂ (Mirrors (fun b c => b = c ∧ S b) (fun k l => k = l ∧ T k)) cs ds →
      (∀ c ∈ cs, ∀ u, Mirrors (fun b c => b = c ∧ S b) (fun k l => k = l ∧ T k) c u → c = u ∧ All S T c) →
      cs = ds ∧ ∀ c ∈ cs, All S T c := by
    intro cs ds hcs ih
    induction hcs with
    | nil => exact ⟨rfl, nofun⟩
    | cons hcd _ ih' =>
      obtain ⟨hc, hrest⟩ := List.forall_mem_cons.mp ih
      obtain ⟨rfl, hall⟩ := hc _ hcd
      obtain ⟨rfl, halls⟩ := ih' hrest
      exact ⟨rfl, List.forall_mem_cons.mpr ⟨hall, halls⟩⟩
  induction t generalizing u with
  | leaf b =>
    cases h with
    | leaf hb => exact ⟨congrArg Tree.leaf hb.1, .leaf hb.2⟩
  | sequence cs i e ih =>
    cases h with
    | sequence hcs =>
      obtain ⟨rfl, hall⟩ := hlists hcs fun c hc u hcu => ih c hc hcu
      exact ⟨rfl, .sequence hall⟩
  | loop k cs i s e ih =>
    cases h with
    | loop hk hcs =>
      obtain ⟨rfl, hT⟩ := hk
      obtain ⟨rfl, hall⟩ := hlists hcs fun c hc u hcu => ih c hc hcu
      exact ⟨rfl, .loop hT hall⟩

/-- A tree whose leaves and loops are as known mirrors itself. -/
theorem Mirrors.self {S : α → Prop} {T : LoopKind σ → Prop} {t : Tree α σ} (h : All S T t) :
    Mirrors (fun b c => b = c ∧ S b) (fun k l => k = l ∧ T k) t t := by
  induction h with
  | leaf hb => exact .leaf ⟨rfl, hb⟩
  | sequence _ ih => exact .sequence (List.forall₂_same.mpr ih)
  | loop hk _ ih => exact .loop ⟨rfl, hk⟩ (List.forall₂_same.mpr ih)

variable [Block α σ] [Block α' τ] {L : α → α' → Prop} {K : LoopKind σ → LoopKind τ → Prop} {W : σ → τ → Prop}
  {D : Float → Float → Prop} {cs : List (Tree α σ)} {ds : List (Tree α' τ)} {w : σ} {v : τ} {i : Nat}

/-- Trees mirror each other in a call that cannot fail, in whatever related worlds it is made. -/
def CallMirrored (L : α → α' → Prop) (K : LoopKind σ → LoopKind τ → Prop) (W : σ → τ → Prop)
    (call : Tree α σ → σ → Tree α σ × σ) (call' : Tree α' τ → τ → Tree α' τ × τ) (t : Tree α σ) : Prop :=
  ∀ u, Mirrors L K t u → ∀ w v, W w v → Mirrors L K (call t w).1 (call' u v).1 ∧ W (call t w).2 (call' u v).2

omit [Block α σ] [Block α' τ] in
/-- A call that is mirrored by each child is mirrored by all of them in turn. -/
theorem inTurn_mirrored {call : Tree α σ → σ → Tree α σ × σ} {call' : Tree α' τ → τ → Tree α' τ × τ}
    (hcs : List.Forall₂ (Mirrors L K) cs ds) (hcall : ∀ c ∈ cs, CallMirrored L K W call call' c) (hw : W w v) :
    List.Forall₂ (Mirrors L K) (inTurn call cs w).1 (inTurn call' ds v).1 ∧ W (inTurn call cs w).2 (inTurn call' ds v).2 := by
  induction hcs generalizing w v with
  | nil => exact ⟨.nil, hw⟩
  | cons hcd _ ih =>
    obtain ⟨hfirst, hrest⟩ := List.forall_mem_cons.mp hcall
    obtain ⟨hcd', hw'⟩ := hfirst _ hcd w v hw
    obtain ⟨hcs', hw''⟩ := ih hrest hw'
    exact ⟨.cons hcd' hcs', hw''⟩

/-- Creating a tree is mirrored. -/
theorem create_mirrored (h : Mirror L W D) (t : Tree α σ) : CallMirrored L K W create create t := by
  induction t with
  | leaf b =>
    rintro _ ⟨hb⟩ w v hw
    exact ⟨.leaf (h.create hb hw).1, (h.create hb hw).2⟩
  | sequence cs i e ih =>
    rintro _ (- | hcs | -) w v hw
    simp only [create, createAll_eq]
    exact ⟨.sequence (inTurn_mirrored hcs ih hw).1, (inTurn_mirrored hcs ih hw).2⟩
  | loop k cs i s e ih =>
    rintro _ (- | - | ⟨hk, hcs⟩) w v hw
    simp only [create, createAll_eq]
    exact ⟨.loop hk (inTurn_mirrored hcs ih hw).1, (inTurn_mirrored hcs ih hw).2⟩

/-- Destroying a tree is mirrored. -/
theorem destroy_mirrored (h : Mirror L W D) (t : Tree α σ) : CallMirrored L K W destroy destroy t := by
  induction t with
  | leaf b =>
    rintro _ ⟨hb⟩ w v hw
    exact ⟨.leaf (h.destroy hb hw).1, (h.destroy hb hw).2⟩
  | sequence cs i e ih =>
    rintro _ (- | hcs | -) w v hw
    simp only [destroy, destroyAll_eq]
    exact ⟨.sequence (inTurn_mirrored hcs ih hw).1, (inTurn_mirrored hcs ih hw).2⟩
  | loop k cs i s e ih =>
    rintro _ (- | - | ⟨hk, hcs⟩) w v hw
    simp only [destroy, destroyAll_eq]
    exact ⟨.loop hk (inTurn_mirrored hcs ih hw).1, (inTurn_mirrored hcs ih hw).2⟩

/-- Exiting the child at an index is mirrored, if exiting each child is. -/
theorem exitAt_mirrored (hcs : List.Forall₂ (Mirrors L K) cs ds) (hexit : ∀ c ∈ cs, CallMirrored L K W exit exit c) (hw : W w v) :
    List.Forall₂ (Mirrors L K) (exitAt cs i w).1 (exitAt ds i v).1 ∧ W (exitAt cs i w).2 (exitAt ds i v).2 := by
  rw [exitAt_eq, exitAt_eq]
  rcases forall₂_getElem? hcs i with ⟨hc, hd⟩ | ⟨c, d, hc, hd, hcd⟩ <;> rw [hc, hd]
  · exact ⟨hcs, hw⟩
  · obtain ⟨hcd', hw'⟩ := hexit c (List.mem_of_getElem? hc) d hcd w v hw
    exact ⟨forall₂_set hcs i hcd', hw'⟩

/-- Exiting a tree is mirrored. -/
theorem exit_mirrored (h : Mirror L W D) (t : Tree α σ) : CallMirrored L K W exit exit t := by
  induction t with
  | leaf b =>
    rintro _ ⟨hb⟩ w v hw
    exact ⟨.leaf (h.exit hb hw).1, (h.exit hb hw).2⟩
  | sequence cs i e ih =>
    rintro _ (- | hcs | -) w v hw
    cases e with
    | false => exact ⟨.sequence hcs, hw⟩
    | true => exact ⟨.sequence (exitAt_mirrored hcs ih hw).1, (exitAt_mirrored hcs ih hw).2⟩
  | loop k cs i s e ih =>
    rintro _ (- | - | ⟨hk, hcs⟩) w v hw
    cases e with
    | false => exact ⟨.loop hk hcs, hw⟩
    | true => exact ⟨.loop hk (exitAt_mirrored hcs ih hw).1, (exitAt_mirrored hcs ih hw).2⟩

/-- Trees that mirror each other are complete together. -/
theorem isComplete_mirrored (h : Mirror L W D) {t : Tree α σ} {u : Tree α' τ} (htu : Mirrors L K t u) (hw : W w v) :
    isComplete t w = isComplete u v := by
  cases htu with
  | leaf hb => exact h.isComplete hb hw
  | sequence hcs => simp [isComplete, hcs.length_eq]
  | loop => rfl

/-! ### Entering -/

omit [Block α σ] [Block α' τ] in
/-- Whether an attempt left a child entered, told of both trees. -/
theorem entered_mirrored (hcs : List.Forall₂ (Mirrors L K) cs ds) (r : Outcome) (i : Nat) : entered r cs i = entered r ds i := by
  simp [entered, hcs.length_eq]

/-- Attempts to enter the child at an index mirror each other. -/
abbrev AttemptMirrored (L : α → α' → Prop) (K : LoopKind σ → LoopKind τ → Prop) (W : σ → τ → Prop) :
    Outcome × List (Tree α σ) × σ → Outcome × List (Tree α' τ) × τ → Prop :=
  Mirrored (List.Forall₂ (Mirrors L K)) W

omit [Block α σ] [Block α' τ] in
/-- Attempts that mirror each other leave sequences that do. -/
theorem sequence_of_attempt {x : Outcome × List (Tree α σ) × σ} {y : Outcome × List (Tree α' τ) × τ} (h : AttemptMirrored L K W x y)
    (i : Nat) : Mirrored (Mirrors L K) W (x.1, sequence x.2.1 i (entered x.1 x.2.1 i), x.2.2)
      (y.1, sequence y.2.1 i (entered y.1 y.2.1 i), y.2.2) := by
  refine ⟨h.answer, ?_, h.world⟩
  rw [← h.answer, ← entered_mirrored h.block]
  exact .sequence h.block

omit [Block α σ] [Block α' τ] in
/-- Attempts that mirror each other leave loops that do, if their tests are related. -/
theorem loop_of_attempt {x : Outcome × List (Tree α σ) × σ} {y : Outcome × List (Tree α' τ) × τ} (h : AttemptMirrored L K W x y)
    {k : LoopKind σ} {l : LoopKind τ} (hk : K k l) (i : Nat) :
    Mirrored (Mirrors L K) W (x.1, Tree.loop k x.2.1 i false (entered x.1 x.2.1 i), x.2.2)
      (y.1, Tree.loop l y.2.1 i false (entered y.1 y.2.1 i), y.2.2) := by
  refine ⟨h.answer, ?_, h.world⟩
  rw [← h.answer, ← entered_mirrored h.block]
  exact .loop hk h.block

/-- Entering a tree is mirrored by entering any tree that mirrors it. -/
def EnterMirrored (L : α → α' → Prop) (K : LoopKind σ → LoopKind τ → Prop) (W : σ → τ → Prop) (t : Tree α σ) : Prop :=
  ∀ u, Mirrors L K t u → ∀ w v, W w v → Mirrored (Mirrors L K) W (enter t w) (enter u v)

/-- An attempt to enter the child at an index is mirrored, if entering each child is. -/
theorem enterAt_mirrored (hcs : List.Forall₂ (Mirrors L K) cs ds) (henter : ∀ c ∈ cs, EnterMirrored L K W c) (i : Nat) (hw : W w v) :
    AttemptMirrored L K W (enterAt cs i w) (enterAt ds i v) := by
  rw [enterAt_eq, enterAt_eq]
  rcases forall₂_getElem? hcs i with ⟨hc, hd⟩ | ⟨c, d, hc, hd, hcd⟩ <;> rw [hc, hd]
  · exact ⟨rfl, hcs, hw⟩
  · obtain ⟨hanswer, hcd', hw'⟩ := henter c (List.mem_of_getElem? hc) d hcd w v hw
    exact ⟨hanswer, forall₂_set hcs i hcd', hw'⟩

/-- Entering a tree is mirrored. -/
theorem enter_mirrored (h : Mirror L W D) (hK : ∀ k l, K k l → Responds W k.shouldExit l.shouldExit) (t : Tree α σ) :
    EnterMirrored L K W t := by
  induction t with
  | leaf b =>
    rintro _ ⟨hb⟩ w v hw
    obtain ⟨hanswer, hb', hw'⟩ := h.enter hb hw
    exact ⟨hanswer, .leaf hb', hw'⟩
  | sequence cs i e ih =>
    rintro _ (- | hcs | -) w v hw
    exact sequence_of_attempt (enterAt_mirrored hcs ih 0 hw) 0
  | loop k cs i s e ih =>
    rintro _ (- | - | @⟨_, l, _, _, _, _, _, hk, hcs⟩) w v hw
    have htest := hK k l hk w v hw
    rcases hkw : k.shouldExit w with ⟨stop, w'⟩
    rcases hlv : l.shouldExit v with ⟨stop', v'⟩
    rw [hkw, hlv] at htest
    obtain ⟨rfl, hw'⟩ : stop = stop' ∧ W w' v' := htest
    cases stop with
    | true =>
      rw [enter_loop_stop hkw, enter_loop_stop hlv]
      exact ⟨rfl, .loop hk hcs, hw'⟩
    | false =>
      rw [enter_loop_start hkw, enter_loop_start hlv]
      exact loop_of_attempt (enterAt_mirrored hcs ih 0 hw') hk 0

/-! ### Running -/

/-- Running a tree is mirrored by running any tree that mirrors it. -/
def RunMirrored (L : α → α' → Prop) (K : LoopKind σ → LoopKind τ → Prop) (W : σ → τ → Prop) (dt dt' : Float) (t : Tree α σ) : Prop :=
  ∀ u, Mirrors L K t u → ∀ w v, W w v → Mirrored (Mirrors L K) W (run dt t w) (run dt' u v)

/-- A child's share of a tick is mirrored, if running the child is. -/
theorem stepChild_mirrored (h : Mirror L W D) {dt dt' : Float} {c : Tree α σ} {d : Tree α' τ} (hrun : RunMirrored L K W dt dt' c)
    (hcd : Mirrors L K c d) (hw : W w v) : Mirrored (Mirrors L K) W (stepChild dt c w) (stepChild dt' d v) := by
  obtain ⟨hanswer, hcd', hw'⟩ := hrun d hcd w v hw
  unfold stepChild
  rcases hc : run dt c w with ⟨r, c', w'⟩
  rcases hd : run dt' d v with ⟨r', d', v'⟩
  rw [hc, hd] at hanswer hcd' hw'
  obtain rfl : r = r' := hanswer
  cases r with
  | error err => exact ⟨rfl, hcd', hw'⟩
  | ok u =>
    have hdone : isComplete c' w' = isComplete d' v' := isComplete_mirrored h hcd' hw'
    simp only [hdone]
    cases isComplete d' v' with
    | false => exact ⟨rfl, hcd', hw'⟩
    | true =>
      obtain ⟨hexited, hw''⟩ := exit_mirrored h c' d' hcd' w' v' hw'
      exact ⟨rfl, hexited, hw''⟩

/-- Running the child at an index is mirrored, if running each child is. -/
theorem runAt_mirrored (h : Mirror L W D) {dt dt' : Float} (hcs : List.Forall₂ (Mirrors L K) cs ds)
    (hrun : ∀ c ∈ cs, RunMirrored L K W dt dt' c) (i : Nat) (hw : W w v) :
    Mirrored (List.Forall₂ (Mirrors L K)) W (runAt dt cs i w) (runAt dt' ds i v) := by
  rw [runAt_eq, runAt_eq]
  rcases forall₂_getElem? hcs i with ⟨hc, hd⟩ | ⟨c, d, hc, hd, hcd⟩ <;> rw [hc, hd]
  · exact ⟨rfl, hcs, hw⟩
  · obtain ⟨hanswer, hcd', hw'⟩ := stepChild_mirrored h (hrun c (List.mem_of_getElem? hc)) hcd hw
    exact ⟨hanswer, forall₂_set hcs i hcd', hw'⟩

variable {dt dt' : Float}

/-- Running a sequence is mirrored, if running each child is. -/
theorem run_sequence_mirrored (h : Mirror L W D) (hK : ∀ k l, K k l → Responds W k.shouldExit l.shouldExit)
    (hcs : List.Forall₂ (Mirrors L K) cs ds) (hrun : ∀ c ∈ cs, RunMirrored L K W dt dt' c) (e : Bool) (hw : W w v) :
    Mirrored (Mirrors L K) W (run dt (sequence cs i e) w) (run dt' (sequence ds i e) v) := by
  rcases Nat.lt_or_ge i cs.length with hi | hi
  · have hi' : i < ds.length := hcs.length_eq ▸ hi
    cases e with
    | false =>
      rw [run_sequence_retry hi, run_sequence_retry hi']
      exact sequence_of_attempt (enterAt_mirrored hcs (fun c _ => enter_mirrored h hK c) i hw) i
    | true =>
      have hchild := runAt_mirrored h hcs hrun i hw
      rcases hc : runAt dt cs i w with ⟨r, cs', w'⟩
      rcases hd : runAt dt' ds i v with ⟨r', ds', v'⟩
      rw [hc, hd] at hchild
      obtain ⟨rfl, hcs', hw'⟩ := hchild
      match r with
      | .error err =>
        rw [run_sequence_error hi hc, run_sequence_error hi' hd]
        exact ⟨rfl, .sequence hcs', hw'⟩
      | .ok false =>
        rw [run_sequence_busy hi hc, run_sequence_busy hi' hd]
        exact ⟨rfl, .sequence hcs', hw'⟩
      | .ok true =>
        rw [run_sequence_next hi hc, run_sequence_next hi' hd]
        exact sequence_of_attempt (enterAt_mirrored hcs' (fun c _ => enter_mirrored h hK c) (i + 1) hw') (i + 1)
  · rw [run_sequence_done hi, run_sequence_done (hcs.length_eq ▸ hi)]
    exact ⟨rfl, .sequence hcs, hw⟩

/-- Running a loop is mirrored, if running each child is. -/
theorem run_loop_mirrored (h : Mirror L W D) (hK : ∀ k l, K k l → Responds W k.shouldExit l.shouldExit) {k : LoopKind σ}
    {l : LoopKind τ} (hk : K k l) (hcs : List.Forall₂ (Mirrors L K) cs ds) (hrun : ∀ c ∈ cs, RunMirrored L K W dt dt' c) (s e : Bool)
    (hw : W w v) : Mirrored (Mirrors L K) W (run dt (loop k cs i s e) w) (run dt' (loop l ds i s e) v) := by
  by_cases hidle : s = true ∨ cs = []
  · have hidle' : s = true ∨ ds = [] := hidle.imp_right fun hnil => List.eq_nil_of_length_eq_zero (by simp [← hcs.length_eq, hnil])
    rw [run_loop_idle hidle, run_loop_idle hidle']
    exact ⟨rfl, .loop hk hcs, hw⟩
  · obtain ⟨hs, hne⟩ := not_or.mp hidle
    obtain rfl : s = false := by simpa using hs
    have hne' : ds ≠ [] := fun hnil => hne (List.eq_nil_of_length_eq_zero (by simp [hcs.length_eq, hnil]))
    have htest := hK k l hk w v hw
    rcases hkw : k.shouldExit w with ⟨stop, w'⟩
    rcases hlv : l.shouldExit v with ⟨stop', v'⟩
    rw [hkw, hlv] at htest
    obtain ⟨rfl, hw'⟩ : stop = stop' ∧ W w' v' := htest
    cases stop with
    | true =>
      rw [run_loop_stop hne hkw, run_loop_stop hne' hlv]
      exact ⟨rfl, .loop hk hcs, hw'⟩
    | false =>
      cases e with
      | false =>
        rw [run_loop_retry hne hkw, run_loop_retry hne' hlv]
        exact loop_of_attempt (enterAt_mirrored hcs (fun c _ => enter_mirrored h hK c) i hw') hk i
      | true =>
        have hchild := runAt_mirrored h hcs hrun i hw'
        rcases hc : runAt dt cs i w' with ⟨r, cs', w''⟩
        rcases hd : runAt dt' ds i v' with ⟨r', ds', v''⟩
        rw [hc, hd] at hchild
        obtain ⟨rfl, hcs', hw''⟩ := hchild
        match r with
        | .error err =>
          rw [run_loop_error hne hkw hc, run_loop_error hne' hlv hd]
          exact ⟨rfl, .loop hk hcs', hw''⟩
        | .ok false =>
          rw [run_loop_busy hne hkw hc, run_loop_busy hne' hlv hd]
          exact ⟨rfl, .loop hk hcs', hw''⟩
        | .ok true =>
          rcases Nat.lt_or_ge (i + 1) cs'.length with hi | hi
          · rw [run_loop_next hne hkw hc hi, run_loop_next hne' hlv hd (hcs'.length_eq ▸ hi)]
            exact loop_of_attempt (enterAt_mirrored hcs' (fun c _ => enter_mirrored h hK c) (i + 1) hw'') hk (i + 1)
          · have hi' : ds'.length ≤ i + 1 := hcs'.length_eq ▸ hi
            have hwrap := hK k l hk w'' v'' hw''
            rcases hkw' : k.shouldExit w'' with ⟨stop, w₃⟩
            rcases hlv' : l.shouldExit v'' with ⟨stop', v₃⟩
            rw [hkw', hlv'] at hwrap
            obtain ⟨rfl, hw₃⟩ : stop = stop' ∧ W w₃ v₃ := hwrap
            cases stop with
            | true =>
              rw [run_loop_finish hne hkw hc hi hkw', run_loop_finish hne' hlv hd hi' hlv']
              exact ⟨rfl, .loop hk hcs', hw₃⟩
            | false =>
              rw [run_loop_wrap hne hkw hc hi hkw', run_loop_wrap hne' hlv hd hi' hlv']
              exact loop_of_attempt (enterAt_mirrored hcs' (fun c _ => enter_mirrored h hK c) 0 hw₃) hk 0

/-- Running a tree is mirrored. -/
theorem run_mirrored (h : Mirror L W D) (hK : ∀ k l, K k l → Responds W k.shouldExit l.shouldExit) (hdt : D dt dt') (t : Tree α σ) :
    RunMirrored L K W dt dt' t := by
  induction t with
  | leaf b =>
    rintro _ ⟨hb⟩ w v hw
    obtain ⟨hanswer, hb', hw'⟩ := h.run hdt hb hw
    exact ⟨hanswer, .leaf hb', hw'⟩
  | sequence cs i e ih =>
    rintro _ (- | hcs | -) w v hw
    exact run_sequence_mirrored h hK hcs ih e hw
  | loop k cs i s e ih =>
    rintro _ (- | - | ⟨hk, hcs⟩) w v hw
    exact run_loop_mirrored h hK hk hcs ih s e hw

/-- Trees mirror each other as their leaves do. -/
theorem mirror (h : Mirror L W D) (hK : ∀ k l, K k l → Responds W k.shouldExit l.shouldExit) : Mirror (Mirrors L K) W D where
  create htu hw := create_mirrored h _ _ htu _ _ hw
  destroy htu hw := destroy_mirrored h _ _ htu _ _ hw
  enter htu hw := enter_mirrored h hK _ _ htu _ _ hw
  run hdt _ _ _ _ htu hw := run_mirrored h hK hdt _ _ htu _ _ hw
  exit htu hw := exit_mirrored h _ _ htu _ _ hw
  isComplete htu hw := isComplete_mirrored h htu hw

end Tree

end BlockScript
