import BlockScript.Proofs.Block.Quiet

/-!
# Trees of sequences

A tree without loops is a line of leaves. Entering it enters the first leaf, and each tick runs the leaf that its cursors lead to:
while that leaf is busy nothing else happens (`Stands.run_busy`), once it is complete the next leaf of the line is entered in the same
tick however deep either of them lies (`Stands.run_next`), and after the last leaf the tree is complete (`Stands.run_last`). A sequence
without children takes a place in the line as well, which is held for one tick.
-/

namespace BlockScript

/-- The first entry of the rest of a list. -/
theorem getElem?_of_drop {α : Type u} {xs ys : List α} {y : α} {j : Nat} (h : xs.drop j = y :: ys) :
    xs[j]? = some y ∧ ys = xs.drop (j + 1) := by
  have hhead : (xs.drop j)[0]? = xs[j + 0]? := List.getElem?_drop
  refine ⟨by simpa [h] using hhead.symm, ?_⟩
  rw [← List.drop_drop, h]
  rfl

namespace Tree

variable {α : Type u} {σ : Type v}

/-- A tree without loops. -/
inductive Straight : Tree α σ → Prop where
  | leaf (b : α) : Straight (leaf b)
  | sequence {cs : List (Tree α σ)} {i : Nat} {e : Bool} : (∀ c ∈ cs, Straight c) → Straight (sequence cs i e)

@[simp] theorem straight_leaf (b : α) : (leaf b : Tree α σ).Straight := .leaf b

/-- A sequence is straight if its children are. -/
@[simp] theorem straight_sequence {cs : List (Tree α σ)} {i : Nat} {e : Bool} :
    (sequence cs i e).Straight ↔ ∀ c ∈ cs, c.Straight := by
  refine ⟨fun h => ?_, .sequence⟩
  cases h with
  | sequence hcs => exact hcs

mutual

/-- The leaves of a tree of sequences in order; an empty sequence is a place without a leaf. -/
def line : Tree α σ → List (Option α)
  | leaf b => [some b]
  | sequence cs _ _ => if cs.isEmpty then [none] else lineOf cs
  | loop _ _ _ _ _ => [none]
termination_by structural t => t

/-- The leaves of some trees in order. -/
def lineOf : List (Tree α σ) → List (Option α)
  | [] => []
  | c :: cs => line c ++ lineOf cs
termination_by structural cs => cs

end

mutual

/-- The leaves that an entered tree of sequences has still to finish, the one that its cursors lead to being the first. -/
def ahead : Tree α σ → List (Option α)
  | leaf b => [some b]
  | sequence cs i _ => if cs.isEmpty then [none] else aheadFrom cs i
  | loop _ _ _ _ _ => [none]
termination_by structural t => t

/-- The leaves that a sequence has still to finish while its cursor stands at an index. -/
def aheadFrom : List (Tree α σ) → Nat → List (Option α)
  | [], _ => []
  | c :: cs, 0 => ahead c ++ lineOf cs
  | _ :: cs, i + 1 => aheadFrom cs i
termination_by structural cs => cs

end

/-- What lies ahead from an index on is what lies ahead in the child there, and the lines of the children after it. -/
theorem aheadFrom_eq {cs : List (Tree α σ)} {i : Nat} {c : Tree α σ} (h : cs[i]? = some c) :
    aheadFrom cs i = ahead c ++ lineOf (cs.drop (i + 1)) := by
  induction cs generalizing i with
  | nil => simp at h
  | cons d cs ih =>
    cases i with
    | zero =>
      obtain rfl : d = c := by simpa using h
      rfl
    | succ i => exact ih (by simpa using h)

/-- An entered tree of sequences whose cursors lead to the first of these leaves; the others follow. -/
inductive Stands : Tree α σ → Option α → List (Option α) → Prop where
  | leaf (b : α) : Stands (leaf b) (some b) []
  | empty (i : Nat) (e : Bool) : Stands (sequence [] i e) none []
  | sequence {cs : List (Tree α σ)} {i : Nat} {c : Tree α σ} {x : Option α} {xs : List (Option α)} : cs[i]? = some c →
      Stands c x xs → (∀ d ∈ cs.drop (i + 1), Straight d) → Stands (sequence cs i true) x (xs ++ lineOf (cs.drop (i + 1)))

/-- A sequence whose active child stands at a leaf stands there. -/
theorem Stands.set {cs : List (Tree α σ)} {i : Nat} {c : Tree α σ} {x : Option α} {xs : List (Option α)} (hi : i < cs.length)
    (hchild : Stands c x xs) (hlater : ∀ d ∈ cs.drop (i + 1), Straight d) :
    Stands (.sequence (cs.set i c) i true) x (xs ++ lineOf (cs.drop (i + 1))) := by
  have hdrop : (cs.set i c).drop (i + 1) = cs.drop (i + 1) := List.drop_set_of_lt (Nat.lt_add_one i)
  rw [← hdrop] at hlater ⊢
  exact .sequence (List.getElem?_set_self hi) hchild hlater

/-- What lies ahead of a tree that stands at a place begins with that place. -/
theorem Stands.ahead_eq {t : Tree α σ} {x : Option α} {xs : List (Option α)} (h : Stands t x xs) : t.ahead = x :: xs := by
  induction h with
  | leaf b => rfl
  | empty i e => rfl
  | @sequence cs i c x xs hc _ _ ih =>
    have hne : cs ≠ [] := by
      rintro rfl
      simp at hc
    rw [ahead, if_neg (by simpa using hne), aheadFrom_eq hc, ih, List.cons_append]

end Tree

/-! ## The places of a line -/

/-- A place of a line as a block: a place without a leaf is always ready. -/
instance {α : Type u} {σ : Type v} [Block α σ] : Block (Option α) σ where
  create
    | none, w => (none, w)
    | some b, w => (some (Block.create b w).1, (Block.create b w).2)
  destroy
    | none, w => (none, w)
    | some b, w => (some (Block.destroy b w).1, (Block.destroy b w).2)
  enter
    | none, w => (.ok (), none, w)
    | some b, w => ((Block.enter b w).1, some (Block.enter b w).2.1, (Block.enter b w).2.2)
  run
    | _, none, w => (.ok (), none, w)
    | dt, some b, w => ((Block.run dt b w).1, some (Block.run dt b w).2.1, (Block.run dt b w).2.2)
  exit
    | none, w => (none, w)
    | some b, w => (some (Block.exit b w).1, (Block.exit b w).2)
  isComplete
    | none, _ => true
    | some b, w => Block.isComplete b w
  kind
    | none => "sequence"
    | some b => Block.kind b

namespace Tree

section

variable {α : Type u} {σ : Type v}

/-- Entering a child that could be entered leaves it entered. -/
theorem entered_of_ok {cs : List (Tree α σ)} {i : Nat} (hi : i < cs.length) : entered (.ok ()) cs i = true := by
  simp [entered, Except.isOk, Except.toBool, hi]

variable [Block α σ]

/-- Entering a tree of sequences is entering the first leaf of its line. -/
theorem Straight.enter_stands {t : Tree α σ} (ht : t.Straight) : ∃ y ys, t.line = y :: ys ∧ ∀ w y' w',
    Block.enter y w = (.ok (), y', w') → ∃ t', t.enter w = (.ok (), t', w') ∧ Stands t' y' ys := by
  induction ht with
  | leaf b =>
    refine ⟨some b, [], rfl, fun w y' w' h => ?_⟩
    obtain ⟨hok, rfl, rfl⟩ : (Block.enter b w).1 = .ok () ∧ some (Block.enter b w).2.1 = y' ∧ (Block.enter b w).2.2 = w' := by
      simpa [Block.enter] using h
    exact ⟨_, Prod.ext hok rfl, .leaf _⟩
  | @sequence cs i e hcs ih =>
    cases cs with
    | nil =>
      refine ⟨none, [], rfl, fun w y' w' h => ?_⟩
      obtain ⟨rfl, rfl⟩ : none = y' ∧ w = w' := by simpa [Block.enter] using h
      exact ⟨_, rfl, .empty 0 _⟩
    | cons c cs =>
      obtain ⟨y, ys, hline, henter⟩ := ih c (by simp)
      refine ⟨y, ys ++ lineOf cs, by simp [line, lineOf, hline], fun w y' w' h => ?_⟩
      obtain ⟨c', hc', hstands⟩ := henter w y' w' h
      refine ⟨.sequence (c' :: cs) 0 true, ?_, ?_⟩
      · simp only [enter, enterAt, hc']
        rw [entered_of_ok (by simp)]
      · exact @Stands.sequence _ _ (c' :: cs) 0 c' y' ys rfl hstands fun d hd => hcs d (by simpa using Or.inr hd)

/-- The line of a straight tree is never empty. -/
theorem Straight.line_ne_nil {t : Tree α σ} (ht : t.Straight) : t.line ≠ [] := by
  obtain ⟨y, ys, hline, -⟩ := ht.enter_stands
  simp [hline]

end

variable {σ : Type v} {t : BuiltIn σ} {x x' y y' : Option (Primitive σ)} {xs ys : List (Option (Primitive σ))} {w w' w'' : σ}
  {dt : Float}

/-- A child whose run leaves it busy stays where it is. -/
theorem runAt_busy {cs : List (BuiltIn σ)} {i : Nat} {c c' : BuiltIn σ} (hc : cs[i]? = some c)
    (hrun : c.run dt w = (.ok (), c', w')) (hbusy : c'.isComplete w' = false) :
    runAt dt cs i w = (.ok false, cs.set i c', w') := by
  simp [runAt_eq, hc, stepChild, hrun, hbusy]

/-- A child whose run leaves it complete is exited, which changes nothing but the child. -/
theorem runAt_done {cs : List (BuiltIn σ)} {i : Nat} {c c' : BuiltIn σ} (hc : cs[i]? = some c)
    (hrun : c.run dt w = (.ok (), c', w')) (hdone : c'.isComplete w' = true) :
    runAt dt cs i w = (.ok true, cs.set i (c'.exit w').1, w') := by
  simp [runAt_eq, hc, stepChild, hrun, hdone, BuiltIn.exit_world]

/-- While the leaf is busy nothing else happens. -/
theorem Stands.run_busy (h : Stands t x xs) (hrun : Block.run dt x w = (.ok (), x', w')) (hbusy : Block.isComplete x' w' = false) :
    ∃ t', t.run dt w = (.ok (), t', w') ∧ t'.isComplete w' = false ∧ Stands t' x' xs := by
  induction h with
  | leaf b =>
    obtain ⟨hok, rfl, rfl⟩ : (Block.run dt b w).1 = .ok () ∧ some (Block.run dt b w).2.1 = x' ∧ (Block.run dt b w).2.2 = w' := by
      simpa [Block.run] using hrun
    exact ⟨_, Prod.ext hok rfl, hbusy, .leaf _⟩
  | empty i e =>
    obtain ⟨rfl, rfl⟩ : none = x' ∧ w = w' := by simpa [Block.run] using hrun
    nomatch hbusy
  | @sequence cs i c x xs hc _ hlater ih =>
    obtain ⟨c', hc', hbusy', hstands⟩ := ih hrun
    have hi : i < cs.length := (List.getElem?_eq_some_iff.mp hc).1
    exact ⟨_, run_sequence_busy hi (runAt_busy hc hc' hbusy'), by simp [isComplete, hi], hstands.set hi hlater⟩

/-- Only the line of no trees at all is empty. -/
theorem lineOf_eq_nil {cs : List (BuiltIn σ)} (hcs : ∀ c ∈ cs, Straight c) (h : lineOf cs = []) : cs = [] := by
  cases cs with
  | nil => rfl
  | cons c cs => exact absurd (List.append_eq_nil_iff.mp h).1 (hcs c (by simp)).line_ne_nil

/-- Once the last leaf is complete the tree is. -/
theorem Stands.run_last (h : Stands t x []) (hrun : Block.run dt x w = (.ok (), x', w')) (hdone : Block.isComplete x' w' = true) :
    ∃ t', t.run dt w = (.ok (), t', w') ∧ t'.isComplete w' = true := by
  generalize hxs : ([] : List (Option (Primitive σ))) = xs at h
  induction h with
  | leaf b =>
    obtain ⟨hok, rfl, rfl⟩ : (Block.run dt b w).1 = .ok () ∧ some (Block.run dt b w).2.1 = x' ∧ (Block.run dt b w).2.2 = w' := by
      simpa [Block.run] using hrun
    exact ⟨_, Prod.ext hok rfl, hdone⟩
  | empty i e =>
    obtain ⟨rfl, rfl⟩ : none = x' ∧ w = w' := by simpa [Block.run] using hrun
    exact ⟨_, run_sequence_done (Nat.zero_le i) e, by simp [isComplete]⟩
  | @sequence cs i c x xs hc _ hlater ih =>
    obtain ⟨hnone, hlast⟩ := List.append_eq_nil_iff.mp hxs.symm
    obtain ⟨c', hc', hdone'⟩ := ih hrun hnone.symm
    have hi : i < cs.length := (List.getElem?_eq_some_iff.mp hc).1
    have hend : cs.length ≤ i + 1 := List.drop_eq_nil_iff.mp (lineOf_eq_nil hlater hlast)
    have hattempt : enterAt (cs.set i (c'.exit w').1) (i + 1) w' = (.ok (), cs.set i (c'.exit w').1, w') := by
      rw [enterAt_eq, List.getElem?_eq_none (by simpa using hend)]
    have hnext := run_sequence_next hi (runAt_done hc hc' hdone')
    rw [hattempt] at hnext
    exact ⟨_, hnext, by simpa [isComplete] using hend⟩

/-- Once a leaf is complete the next one of the line is entered. -/
theorem Stands.run_next (h : Stands t x (y :: ys)) (hrun : Block.run dt x w = (.ok (), x', w'))
    (hdone : Block.isComplete x' w' = true) (henter : Block.enter y w' = (.ok (), y', w'')) :
    ∃ t', t.run dt w = (.ok (), t', w'') ∧ t'.isComplete w'' = false ∧ Stands t' y' ys := by
  generalize hline : y :: ys = line at h
  induction h generalizing ys with
  | leaf b => nomatch hline
  | empty i e => nomatch hline
  | @sequence cs i c x xs hc hchild hlater ih =>
    have hi : i < cs.length := (List.getElem?_eq_some_iff.mp hc).1
    cases xs with
    | cons z zs =>
      -- The next leaf lies below the same child.
      obtain ⟨rfl, rfl⟩ : y = z ∧ ys = zs ++ lineOf (cs.drop (i + 1)) := by simpa using hline
      obtain ⟨c', hc', hbusy, hstands⟩ := ih hrun rfl
      exact ⟨_, run_sequence_busy hi (runAt_busy hc hc' hbusy), by simp [isComplete, hi], hstands.set hi hlater⟩
    | nil =>
      -- The child is complete, and the next leaf is the first of the child after it.
      obtain ⟨c', hc', hdone'⟩ := hchild.run_last hrun hdone
      cases hrest : cs.drop (i + 1) with
      | nil => simp [hrest, lineOf] at hline
      | cons d ds =>
        obtain ⟨hnext, rfl⟩ := getElem?_of_drop hrest
        rw [hrest] at hline hlater
        obtain ⟨hd, hds⟩ := List.forall_mem_cons.mp hlater
        obtain ⟨z, zs, hfirst, henters⟩ := hd.enter_stands
        obtain ⟨rfl, rfl⟩ : y = z ∧ ys = zs ++ lineOf (cs.drop (i + 1 + 1)) := by simpa [lineOf, hfirst] using hline
        obtain ⟨d', hd', hstands⟩ := henters w' y' w'' henter
        let cs' := cs.set i (c'.exit w').1
        have hget : cs'[i + 1]? = some d := by rw [List.getElem?_set_ne (Nat.ne_of_lt (Nat.lt_add_one i)), hnext]
        have hi' : i + 1 < cs'.length := (List.getElem?_eq_some_iff.mp hget).1
        have hafter : cs'.drop (i + 1 + 1) = cs.drop (i + 1 + 1) := List.drop_set_of_lt (by omega)
        have hattempt : enterAt cs' (i + 1) w' = (.ok (), cs'.set (i + 1) d', w'') := by
          simp only [enterAt_eq, hget, hd']
        have hrun' := run_sequence_next hi (runAt_done hc hc' hdone')
        rw [hattempt, entered_of_ok (by simpa using hi')] at hrun'
        refine ⟨_, hrun', by simpa [isComplete] using hi', ?_⟩
        rw [← hafter] at hds ⊢
        exact hstands.set hi' hds

end Tree

end BlockScript
