import BlockScript.Proofs.Block.Renewal

/-!
# What no call changes

The blank of a tree is the tree as it was before its first activation: its cursors and flags are back where they started, and each leaf
is reduced to what is given of it and lasts. No call changes the blank of a tree if none changes what is given of its leaves
(`blank_enter`, `blank_exit`, `blank_run`), so a block that has been used is akin to any copy of it that has not.
-/

namespace BlockScript

namespace Tree

variable {α : Type u} {γ : Type w} {σ : Type v}

/-! ## What no call changes -/

mutual

/-- The tree as before its first activation, with each leaf reduced to what is given of it. -/
def blank (f : α → γ) : Tree α σ → Tree γ σ
  | leaf b => leaf (f b)
  | sequence cs _ _ => ofList (blankAll f cs)
  | loop k cs _ _ _ => repeating k (blankAll f cs)
termination_by structural t => t

/-- `blank` for each tree of a list. -/
def blankAll (f : α → γ) : List (Tree α σ) → List (Tree γ σ)
  | [] => []
  | c :: cs => blank f c :: blankAll f cs
termination_by structural cs => cs

end

theorem blankAll_eq (f : α → γ) (cs : List (Tree α σ)) : blankAll f cs = cs.map (blank f) := by
  induction cs with
  | nil => rfl
  | cons c cs ih => rw [blankAll, ih, List.map_cons]

/-- Replacing a child by one with the same blank changes no blank. -/
theorem map_blank_set (f : α → γ) {cs : List (Tree α σ)} {i : Nat} {c c' : Tree α σ} (hc : cs[i]? = some c)
    (hblank : blank f c' = blank f c) : (cs.set i c').map (blank f) = cs.map (blank f) := by
  obtain ⟨hi, hget⟩ := List.getElem?_eq_some_iff.mp hc
  have hi' : i < (cs.map (blank f)).length := by simpa using hi
  rw [List.map_set, hblank, ← hget, ← List.getElem_map (blank f) (h := hi'), List.set_getElem_self]

/-- Trees with the same blank have the same shape, related leaves and the same loops. -/
theorem akin_of_blank {f : α → γ} {A : α → α → Prop} (hA : ∀ b c, f b = f c → A b c) (t : Tree α σ) :
    ∀ u, blank f t = blank f u → Akin A Eq t u := by
  have hpaired : ∀ {cs ds : List (Tree α σ)}, (∀ c ∈ cs, ∀ u, blank f c = blank f u → Akin A Eq c u) →
      blankAll f cs = blankAll f ds → Paired A Eq cs ds := by
    intro cs ds ih hblank
    rw [blankAll_eq, blankAll_eq] at hblank
    refine ⟨by simpa using congrArg List.length hblank, fun n c d hc hd => ?_⟩
    have hn := congrArg (·[n]?) hblank
    simp only [List.getElem?_map, hc, hd, Option.map_some, Option.some.injEq] at hn
    exact ih c (List.mem_of_getElem? hc) d hn
  induction t with
  | leaf b =>
    intro u hu
    cases u with
    | leaf c => exact .leaf (hA b c (Tree.leaf.inj hu))
    | sequence ds j f => nomatch hu
    | loop l ds j t f => nomatch hu
  | sequence cs i e ih =>
    intro u hu
    cases u with
    | leaf c => nomatch hu
    | sequence ds j f => exact (hpaired ih (Tree.sequence.inj hu).1).akin_sequence i j e f
    | loop l ds j t f => nomatch hu
  | loop k cs i s e ih =>
    intro u hu
    cases u with
    | leaf c => nomatch hu
    | sequence ds j f => nomatch hu
    | loop l ds j t f => exact (hpaired ih (Tree.loop.inj hu).2.1).akin_loop (Tree.loop.inj hu).1 i j s t e f

variable [Block α σ]

/-- What no call on a leaf changes of it. -/
structure Lasting (f : α → γ) : Prop where
  enter : ∀ b (w : σ), f (Block.enter b w).2.1 = f b
  run : ∀ dt b (w : σ), f (Block.run dt b w).2.1 = f b
  exit : ∀ b (w : σ), f (Block.exit b w).1 = f b

variable {f : α → γ}

/-- Entering the child at an index changes nothing that is not blanked, if entering a child does not. -/
theorem map_blank_enterAt {cs : List (Tree α σ)} (h : ∀ c ∈ cs, ∀ w : σ, blank f (enter c w).2.1 = blank f c) (i : Nat)
    (w : σ) : (enterAt cs i w).2.1.map (blank f) = cs.map (blank f) := by
  rw [enterAt_eq]
  cases hc : cs[i]? with
  | none => rfl
  | some c => exact map_blank_set f hc (h c (List.mem_of_getElem? hc) w)

/-- Entering changes cursors and leaves alone. -/
theorem blank_enter (h : Lasting (σ := σ) f) (t : Tree α σ) : ∀ w : σ, blank f (enter t w).2.1 = blank f t := by
  induction t with
  | leaf b =>
    intro w
    exact congrArg Tree.leaf (h.enter b w)
  | sequence cs i e ih =>
    intro w
    simp only [enter, blank, blankAll_eq, map_blank_enterAt ih]
  | loop k cs i s e ih =>
    intro w
    rcases hk : k.shouldExit w with ⟨_ | _, w'⟩
    · rw [enter_loop_start hk]
      simp only [blank, blankAll_eq, map_blank_enterAt ih]
    · rw [enter_loop_stop hk]
      rfl

/-- Exiting the child at an index changes nothing that is not blanked, if exiting a child does not. -/
theorem map_blank_exitAt {cs : List (Tree α σ)} (h : ∀ c ∈ cs, ∀ w : σ, blank f (exit c w).1 = blank f c) (i : Nat)
    (w : σ) : (exitAt cs i w).1.map (blank f) = cs.map (blank f) := by
  rw [exitAt_eq]
  cases hc : cs[i]? with
  | none => rfl
  | some c => exact map_blank_set f hc (h c (List.mem_of_getElem? hc) w)

/-- Exiting changes cursors and leaves alone. -/
theorem blank_exit (h : Lasting (σ := σ) f) (t : Tree α σ) : ∀ w : σ, blank f (exit t w).1 = blank f t := by
  induction t with
  | leaf b =>
    intro w
    exact congrArg Tree.leaf (h.exit b w)
  | sequence cs i e ih =>
    intro w
    cases e with
    | false => rfl
    | true => simp only [exit, if_true, blank, blankAll_eq, map_blank_exitAt ih]
  | loop k cs i s e ih =>
    intro w
    cases e with
    | false => rfl
    | true => simp only [exit, if_true, blank, blankAll_eq, map_blank_exitAt ih]

/-- A child's share of a tick changes cursors and leaves alone, if running the child does. -/
theorem blank_stepChild (h : Lasting (σ := σ) f) {dt : Float} {c : Tree α σ} {w : σ}
    (hrun : blank f (run dt c w).2.1 = blank f c) : blank f (stepChild dt c w).2.1 = blank f c := by
  unfold stepChild
  rcases hc : run dt c w with ⟨e | ⟨⟩, c', w'⟩
  · rw [hc] at hrun
    exact hrun
  · rw [hc] at hrun
    cases hdone : isComplete c' w' with
    | false =>
      simp only [hdone, Bool.false_eq_true, if_false]
      exact hrun
    | true =>
      simp only [hdone, if_true]
      exact (blank_exit h c' w').trans hrun

/-- Running the child at an index changes nothing that is not blanked, if running a child does not. -/
theorem map_blank_runAt (h : Lasting (σ := σ) f) {dt : Float} {cs : List (Tree α σ)}
    (hrun : ∀ c ∈ cs, ∀ w : σ, blank f (run dt c w).2.1 = blank f c) (i : Nat) (w : σ) :
    (runAt dt cs i w).2.1.map (blank f) = cs.map (blank f) := by
  rw [runAt_eq]
  cases hc : cs[i]? with
  | none => rfl
  | some c => exact map_blank_set f hc (blank_stepChild h (hrun c (List.mem_of_getElem? hc) w))

/-- Running a sequence changes cursors and leaves alone, if running each child does. -/
theorem blank_run_sequence (h : Lasting (σ := σ) f) {dt : Float} {cs : List (Tree α σ)}
    (ih : ∀ c ∈ cs, ∀ w : σ, blank f (run dt c w).2.1 = blank f c) (i : Nat) (e : Bool) (w : σ) :
    blank f (run dt (sequence cs i e) w).2.1 = blank f (sequence cs i e) := by
  have hattempt : ∀ (ds : List (Tree α σ)) j v, (enterAt ds j v).2.1.map (blank f) = ds.map (blank f) := fun ds j v =>
    map_blank_enterAt (fun c _ => blank_enter h c) j v
  rcases Nat.lt_or_ge i cs.length with hi | hi
  · cases e with
    | false =>
      rw [run_sequence_retry hi]
      simp only [blank, blankAll_eq, hattempt]
    | true =>
      have hchild := map_blank_runAt h ih i w
      rcases hstep : runAt dt cs i w with ⟨err | _ | _, cs', w'⟩ <;> rw [hstep] at hchild
      · rw [run_sequence_error hi hstep]
        simp only [blank, blankAll_eq, hchild]
      · rw [run_sequence_busy hi hstep]
        simp only [blank, blankAll_eq, hchild]
      · rw [run_sequence_next hi hstep]
        simp only [blank, blankAll_eq, hattempt, hchild]
  · rw [run_sequence_done hi]

/-- Running a loop changes cursors and leaves alone, if running each child does. -/
theorem blank_run_loop (h : Lasting (σ := σ) f) {dt : Float} {cs : List (Tree α σ)}
    (ih : ∀ c ∈ cs, ∀ w : σ, blank f (run dt c w).2.1 = blank f c) (k : LoopKind σ) (i : Nat) (s e : Bool) (w : σ) :
    blank f (run dt (loop k cs i s e) w).2.1 = blank f (loop k cs i s e) := by
  have hattempt : ∀ (ds : List (Tree α σ)) j v, (enterAt ds j v).2.1.map (blank f) = ds.map (blank f) := fun ds j v =>
    map_blank_enterAt (fun c _ => blank_enter h c) j v
  by_cases hidle : s = true ∨ cs = []
  · rw [run_loop_idle hidle]
  obtain ⟨hs, hcs⟩ := not_or.mp hidle
  obtain rfl : s = false := by simpa using hs
  rcases hk : k.shouldExit w with ⟨_ | _, w₁⟩
  · cases e with
    | false =>
      rw [run_loop_retry hcs hk]
      simp only [blank, blankAll_eq, hattempt]
    | true =>
      have hchild := map_blank_runAt h ih i w₁
      rcases hstep : runAt dt cs i w₁ with ⟨err | _ | _, cs', w'⟩ <;> rw [hstep] at hchild
      · rw [run_loop_error hcs hk hstep]
        simp only [blank, blankAll_eq, hchild]
      · rw [run_loop_busy hcs hk hstep]
        simp only [blank, blankAll_eq, hchild]
      · rcases Nat.lt_or_ge (i + 1) cs'.length with hi | hi
        · rw [run_loop_next hcs hk hstep hi]
          simp only [blank, blankAll_eq, hattempt, hchild]
        · rcases hk' : k.shouldExit w' with ⟨_ | _, w₂⟩
          · rw [run_loop_wrap hcs hk hstep hi hk']
            simp only [blank, blankAll_eq, hattempt, hchild]
          · rw [run_loop_finish hcs hk hstep hi hk']
            simp only [blank, blankAll_eq, hchild]
  · rw [run_loop_stop hcs hk]
    rfl

/-- Running changes cursors and leaves alone. -/
theorem blank_run (h : Lasting (σ := σ) f) (dt : Float) (t : Tree α σ) : ∀ w : σ, blank f (run dt t w).2.1 = blank f t := by
  induction t with
  | leaf b =>
    intro w
    exact congrArg Tree.leaf (h.run dt b w)
  | sequence cs i e ih =>
    intro w
    exact blank_run_sequence h ih i e w
  | loop k cs i s e ih =>
    intro w
    exact blank_run_loop h ih k i s e w

end Tree

/-! ## Built-in blocks -/

section

variable {σ : Type v}

/-- A built-in leaf as it was built. -/
def Primitive.blank : Primitive σ → Primitive σ
  | execute callback _ => execute callback false
  | wait duration _ _ clock => wait duration 0.0 0.0 clock
  | condition test _ => condition test false

/-- Leaves that are equal once they are blank are made of the same. -/
theorem Primitive.akin_of_blank (b c : Primitive σ) (h : b.blank = c.blank) : b.Akin c := by
  cases b with
  | execute callback executed =>
    cases c with
    | execute callback' executed' =>
      obtain ⟨rfl, -⟩ := Primitive.execute.inj h
      exact .execute callback executed executed'
    | wait => nomatch h
    | condition => nomatch h
  | wait duration start now clock =>
    cases c with
    | execute => nomatch h
    | wait duration' start' now' clock' =>
      obtain ⟨rfl, -, -, rfl⟩ := Primitive.wait.inj h
      exact .wait duration start now start' now' clock
    | condition => nomatch h
  | condition test result =>
    cases c with
    | execute => nomatch h
    | wait => nomatch h
    | condition test' result' =>
      obtain ⟨rfl, -⟩ := Primitive.condition.inj h
      exact .condition test result result'

/-- Leaves that are made of the same are equal once they are blank. -/
theorem Primitive.Akin.blank_eq {b c : Primitive σ} (h : b.Akin c) : c.blank = b.blank := by
  cases h <;> rfl

/-- No call on a leaf changes what it is made of. -/
theorem Primitive.blank_lasting : Tree.Lasting (σ := σ) (Primitive.blank (σ := σ)) where
  enter b w := (b.akin_enter w).blank_eq
  run _ b w := (b.akin_run w).blank_eq
  exit _ _ := rfl

/-- A tree of built-in blocks as it was built. -/
def BuiltIn.blank (t : BuiltIn σ) : BuiltIn σ := Tree.blank Primitive.blank t

/-- Trees that are equal once they are blank are made of the same blocks. -/
theorem BuiltIn.sameBlocks_of_blank {t u : BuiltIn σ} (h : t.blank = u.blank) : t.SameBlocks u :=
  Tree.akin_of_blank Primitive.akin_of_blank t u h

end

end BlockScript
