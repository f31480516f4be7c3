import BlockScript.Proofs.Block.Children

/-!
# The parts of nested sequences

A tree of sequences is a cursor over the parts it is made of: the leaves and loops that are reached through sequences alone, in order.
`Position` is such a cursor, and `Position.step` what a tick makes of it; that the tree is in step with its position is shown once, by
induction over the cursors that lead to the part (`At.follows`). Entering comes to the first part (`Filled.entersFirst`), exiting exits
the part that is entered (`At.exit`), and creating and destroying reach all parts in turn (`ReachesAll.actsOnParts`).
-/

namespace BlockScript.Tree

variable {α : Type u} {σ : Type v}

/-! ## Parts -/

mutual

/-- The leaves and loops of a tree that are reached through sequences alone, from left to right. -/
def parts : Tree α σ → List (Tree α σ)
  | leaf b => [leaf b]
  | sequence cs _ _ => partsOf cs
  | loop k cs i s e => [loop k cs i s e]
termination_by structural t => t

/-- The parts of some trees, from left to right. -/
def partsOf : List (Tree α σ) → List (Tree α σ)
  | [] => []
  | c :: cs => parts c ++ partsOf cs
termination_by structural cs => cs

end

/-- A tree that is not a sequence. -/
def IsPart : Tree α σ → Prop
  | leaf _ => True
  | sequence _ _ _ => False
  | loop _ _ _ _ _ => True

/-- No sequence of the tree is empty; loops may be. -/
inductive Filled : Tree α σ → Prop where
  | part {t : Tree α σ} : t.IsPart → Filled t
  | sequence {cs : List (Tree α σ)} {i : Nat} {e : Bool} : cs ≠ [] → (∀ c ∈ cs, Filled c) → Filled (sequence cs i e)

/-- A part is the one part of itself. -/
theorem IsPart.parts_eq {t : Tree α σ} (h : t.IsPart) : t.parts = [t] := by
  cases t with
  | leaf b => rfl
  | sequence cs i e => exact h.elim
  | loop k cs i s e => rfl

/-- The parts of a tree are parts. -/
theorem isPart_of_mem_parts (t : Tree α σ) : ∀ p ∈ t.parts, p.IsPart := by
  induction t with
  | leaf b =>
    intro p hp
    obtain rfl := List.mem_singleton.mp hp
    trivial
  | sequence cs i e ih =>
    intro p hp
    have hcs : p ∈ partsOf cs := hp
    clear hp
    induction cs with
    | nil => nomatch hcs
    | cons c cs ihcs =>
      rcases List.mem_append.mp hcs with hc | hcs
      · exact ih c (by simp) p hc
      · exact ihcs (fun d hd => ih d (by simp [hd])) hcs
  | loop k cs i s e ih =>
    intro p hp
    obtain rfl := List.mem_singleton.mp hp
    trivial

theorem partsOf_append (xs ys : List (Tree α σ)) : partsOf (xs ++ ys) = partsOf xs ++ partsOf ys := by
  induction xs with
  | nil => rfl
  | cons x xs ih => simp only [List.cons_append, partsOf, ih, List.append_assoc]

theorem partsOf_eq_flatMap (cs : List (Tree α σ)) : partsOf cs = cs.flatMap parts := by
  induction cs with
  | nil => rfl
  | cons c cs ih => rw [partsOf, ih, List.flatMap_cons]

/-- Parts are made of themselves. -/
theorem partsOf_of_isPart {ps : List (Tree α σ)} (h : ∀ p ∈ ps, p.IsPart) : partsOf ps = ps := by
  induction ps with
  | nil => rfl
  | cons p ps ih =>
    have hp : p.parts = [p] := (h p (by simp)).parts_eq
    have hps : partsOf ps = ps := ih fun q hq => h q (by simp [hq])
    rw [partsOf, hp, hps, List.singleton_append]

/-- The parts of children are parts. -/
theorem isPart_of_mem_partsOf {cs : List (Tree α σ)} : ∀ p ∈ partsOf cs, p.IsPart := by
  intro p hp
  rw [partsOf_eq_flatMap] at hp
  obtain ⟨c, -, hpc⟩ := List.mem_flatMap.mp hp
  exact isPart_of_mem_parts c p hpc

/-- A child of a filled sequence is replaced by another filled tree. -/
theorem Filled.replace {xs ys : List (Tree α σ)} {c c' : Tree α σ} {i : Nat} {e : Bool}
    (h : Filled (.sequence (xs ++ c :: ys) i e)) (hc : Filled c') (j : Nat) (f : Bool) : Filled (.sequence (xs ++ c' :: ys) j f) := by
  cases h with
  | part h => exact h.elim
  | sequence _ hcs =>
    refine .sequence (by simp) fun d hd => ?_
    rcases List.mem_append.mp hd with hd | hd
    · exact hcs d (by simp [hd])
    · rcases List.mem_cons.mp hd with rfl | hd
      · exact hc
      · exact hcs d (by simp [hd])

/-- The children of a sequence that is filled are filled. -/
theorem Filled.child {cs : List (Tree α σ)} {i : Nat} {e : Bool} (h : Filled (.sequence cs i e)) : ∀ c ∈ cs, Filled c := by
  cases h with
  | part h => exact h.elim
  | sequence _ hcs => exact hcs

/-! ## Positions -/

/-- A cursor over parts: at one of them, which is entered or still has to be, or past all of them. -/
inductive Position (α : Type u) (σ : Type v) where
  | here (before : List (Tree α σ)) (part : Tree α σ) (after : List (Tree α σ)) (entered : Bool)
  | past (all : List (Tree α σ))

/-- The parts that a cursor goes over. -/
def Position.all : Position α σ → List (Tree α σ)
  | here before p after _ => before ++ p :: after
  | past ps => ps

/-- A tree of sequences whose cursors lead to a position among its parts. A part is entered if all sequences above it hold their child
entered. -/
inductive At : Tree α σ → Position α σ → Prop where
  | part {t : Tree α σ} : t.IsPart → At t (.here [] t [] true)
  | waiting {xs ys ps : List (Tree α σ)} {c p : Tree α σ} : c.parts = p :: ps →
      At (sequence (xs ++ c :: ys) xs.length false) (.here (partsOf xs) p (ps ++ partsOf ys) false)
  | inside {xs ys before after : List (Tree α σ)} {c p : Tree α σ} {e : Bool} : At c (.here before p after e) →
      At (sequence (xs ++ c :: ys) xs.length true) (.here (partsOf xs ++ before) p (after ++ partsOf ys) e)
  | past {t : Tree α σ} : At t (.past t.parts)

/-- The parts of a tree are those around its position. -/
theorem At.parts_eq {t : Tree α σ} {pos : Position α σ} (h : At t pos) : t.parts = pos.all := by
  induction h with
  | part h => exact h.parts_eq
  | waiting hc => simp [parts, partsOf_append, partsOf, Position.all, hc]
  | inside _ ih => simp [parts, partsOf_append, partsOf, ih, Position.all]
  | past => rfl

variable [Block α σ]

/-- What a cursor comes to that has gone over some parts in a tick: the next one is entered, if there is one. -/
def Position.goOn (gone rest : List (Tree α σ)) (w : σ) : Except BlockError Bool × Position α σ × σ :=
  match rest with
  | [] => (.ok true, past gone, w)
  | p :: after => ((enter p w).1.map fun _ => false, here gone (enter p w).2.1 after (enter p w).1.isOk, (enter p w).2.2)

/-- What one tick makes of a cursor over parts, as a parent sees it: a part that could not be entered is entered again; a part that is
entered is run; once it is complete it is exited and the next part is entered in the same tick. The answer tells whether the cursor is
then past all parts. -/
def Position.step (dt : Float) : Position α σ → σ → Except BlockError Bool × Position α σ × σ
  | past ps, w => (.ok true, past ps, w)
  | here before p after false, w => goOn before (p :: after) w
  | here before p after true, w =>
    match stepChild dt p w with
    | (.error err, p, w) => (.error err, here before p after true, w)
    | (.ok false, p, w) => (.ok false, here before p after true, w)
    | (.ok true, p, w) => goOn (before ++ [p]) after w

/-! ## Parts stay parts -/

/-- A part that is entered is a part. -/
theorem IsPart.enter {t : Tree α σ} (h : t.IsPart) (w : σ) : (t.enter w).2.1.IsPart := by
  cases t with
  | leaf b => trivial
  | sequence cs i e => exact h.elim
  | loop k cs i s e =>
    simp only [Tree.enter]
    split <;> trivial

/-- A part that is exited is a part. -/
theorem IsPart.exit {t : Tree α σ} (h : t.IsPart) (w : σ) : (t.exit w).1.IsPart := by
  cases t with
  | leaf b => trivial
  | sequence cs i e => exact h.elim
  | loop k cs i s e =>
    simp only [Tree.exit]
    split <;> trivial

/-- A part that has run is a part. -/
theorem IsPart.run {t : Tree α σ} (h : t.IsPart) (dt : Float) (w : σ) : (t.run dt w).2.1.IsPart := by
  cases t with
  | leaf b => trivial
  | sequence cs i e => exact h.elim
  | loop k cs i s e =>
    simp only [Tree.run]
    repeat' split
    all_goals trivial

/-- A part that has had its share of a tick is a part. -/
theorem IsPart.stepChild {t : Tree α σ} (h : t.IsPart) (dt : Float) (w : σ) : (t.stepChild dt w).2.1.IsPart := by
  have hrun := h.run dt w
  unfold Tree.stepChild
  rcases hr : t.run dt w with ⟨err | ⟨⟩, t', w'⟩ <;> rw [hr] at hrun
  · exact hrun
  · cases hc : t'.isComplete w' with
    | false => simpa [hc] using hrun
    | true => simpa [hc] using IsPart.exit hrun w'

/-! ## The child under the cursor -/

section

variable {dt : Float} {xs ys : List (Tree α σ)} {c c' : Tree α σ} {w w' : σ} {err : BlockError}

/-- Entering the child in the middle leaves those around it. -/
theorem enterAt_middle (xs ys : List (Tree α σ)) (c : Tree α σ) (w : σ) :
    enterAt (xs ++ c :: ys) xs.length w = ((enter c w).1, xs ++ (enter c w).2.1 :: ys, (enter c w).2.2) := by
  simp [enterAt_eq]

/-- Exiting the child in the middle leaves those around it. -/
theorem exitAt_middle (xs ys : List (Tree α σ)) (c : Tree α σ) (w : σ) :
    exitAt (xs ++ c :: ys) xs.length w = (xs ++ (exit c w).1 :: ys, (exit c w).2) := by
  simp [exitAt_eq]

theorem length_exitAt (cs : List (Tree α σ)) (i : Nat) (w : σ) : (exitAt cs i w).1.length = cs.length := by
  rw [exitAt_eq]
  split <;> simp

/-- Running the child in the middle leaves those around it. -/
theorem runAt_middle (dt : Float) (xs ys : List (Tree α σ)) (c : Tree α σ) (w : σ) :
    runAt dt (xs ++ c :: ys) xs.length w =
      ((stepChild dt c w).1, xs ++ (stepChild dt c w).2.1 :: ys, (stepChild dt c w).2.2) := by
  simp [runAt_eq]

omit [Block α σ] in
theorem length_lt_middle (xs ys : List (Tree α σ)) (c : Tree α σ) : xs.length < (xs ++ c :: ys).length := by
  simp

theorem isComplete_middle (xs ys : List (Tree α σ)) (c : Tree α σ) (e : Bool) (w : σ) :
    isComplete (sequence (xs ++ c :: ys) xs.length e) w = false := by
  simp [isComplete]

omit [Block α σ] in
theorem entered_middle (r : Outcome) (xs ys : List (Tree α σ)) (c : Tree α σ) :
    entered r (xs ++ c :: ys) xs.length = r.isOk := by
  simp [entered]

/-- A sequence whose child in the middle is not entered tries again to enter it. -/
theorem run_middle_retry (dt : Float) (xs ys : List (Tree α σ)) (c : Tree α σ) (w : σ) :
    run dt (sequence (xs ++ c :: ys) xs.length false) w =
      ((enter c w).1, sequence (xs ++ (enter c w).2.1 :: ys) xs.length (enter c w).1.isOk, (enter c w).2.2) := by
  rw [run_sequence_retry (length_lt_middle xs ys c), enterAt_middle, entered_middle]

/-- A sequence fails as its child in the middle does. -/
theorem run_middle_error (h : stepChild dt c w = (.error err, c', w')) :
    run dt (sequence (xs ++ c :: ys) xs.length true) w = (.error err, sequence (xs ++ c' :: ys) xs.length true, w') := by
  apply run_sequence_error (length_lt_middle xs ys c)
  rw [runAt_middle, h]

/-- A sequence stays with its child in the middle while that is not done. -/
theorem run_middle_busy (h : stepChild dt c w = (.ok false, c', w')) :
    run dt (sequence (xs ++ c :: ys) xs.length true) w = (.ok (), sequence (xs ++ c' :: ys) xs.length true, w') := by
  apply run_sequence_busy (length_lt_middle xs ys c)
  rw [runAt_middle, h]

/-- The last child is complete, and with it the sequence. -/
theorem run_middle_last (h : stepChild dt c w = (.ok true, c', w')) :
    run dt (sequence (xs ++ [c]) xs.length true) w = (.ok (), sequence (xs ++ [c']) (xs.length + 1) false, w') := by
  have hstep : runAt dt (xs ++ [c]) xs.length w = (.ok true, xs ++ [c'], w') := by rw [runAt_middle, h]
  rw [run_sequence_next (length_lt_middle xs [] c) hstep]
  simp [enterAt_eq, entered]

/-- A sequence goes on to the next child when the one in the middle is done. -/
theorem run_middle_next {d : Tree α σ} (h : stepChild dt c w = (.ok true, c', w')) :
    run dt (sequence (xs ++ c :: d :: ys) xs.length true) w =
      ((enter d w').1, sequence (xs ++ c' :: (enter d w').2.1 :: ys) (xs.length + 1) (enter d w').1.isOk, (enter d w').2.2) := by
  have hstep : runAt dt (xs ++ c :: d :: ys) xs.length w = (.ok true, xs ++ c' :: d :: ys, w') := by rw [runAt_middle, h]
  rw [run_sequence_next (length_lt_middle xs (d :: ys) c) hstep]
  simp [enterAt_eq, entered]

end

/-- A sequence that a tick leaves complete holds no child entered. -/
theorem not_entered_of_run {dt : Float} {cs : List (Tree α σ)} {i : Nat} {e : Bool} {w w' : σ} {t : Tree α σ}
    (hi : i < cs.length) (h : run dt (sequence cs i e) w = (.ok (), t, w')) (hc : t.isComplete w' = true) : ∃ cs' j, t = sequence cs' j false := by
  cases e with
  | false =>
    rw [run_sequence_retry hi] at h
    obtain ⟨-, rfl, rfl⟩ : _ ∧ _ ∧ _ := by simpa using h
    rw [isComplete_sequence, length_enterAt] at hc
    omega
  | true =>
    rcases hstep : runAt dt cs i w with ⟨err | _ | _, cs', w''⟩
    · rw [run_sequence_error hi hstep] at h
      nomatch h
    · rw [run_sequence_busy hi hstep] at h
      obtain ⟨rfl, rfl⟩ : _ ∧ _ := by simpa using h
      rw [isComplete_sequence, length_of_runAt hstep] at hc
      omega
    · rw [run_sequence_next hi hstep] at h
      obtain ⟨-, rfl, rfl⟩ : _ ∧ _ ∧ _ := by simpa using h
      rw [isComplete_sequence] at hc
      have hflag : entered (enterAt cs' (i + 1) w'').1 (enterAt cs' (i + 1) w'').2.1 (i + 1) = false := by
        simp [entered, Nat.not_lt.mpr hc]
      exact ⟨_, i + 1, by rw [hflag]⟩

/-- For its parent, a step of a sequence is its tick: there is nothing to exit. -/
theorem stepChild_sequence (dt : Float) {cs : List (Tree α σ)} {i : Nat} (hi : i < cs.length) (e : Bool) (w : σ) :
    stepChild dt (sequence cs i e) w =
      ((run dt (sequence cs i e) w).1.map fun _ => isComplete (run dt (sequence cs i e) w).2.1 (run dt (sequence cs i e) w).2.2,
        (run dt (sequence cs i e) w).2) := by
  unfold stepChild
  rcases hrun : run dt (sequence cs i e) w with ⟨err | ⟨⟩, t, w'⟩
  · rfl
  · cases hc : t.isComplete w' with
    | false => simp [hc, Except.map]
    | true =>
      obtain ⟨cs', j, rfl⟩ := not_entered_of_run hi hrun hc
      simp [hc, exit, Except.map]

/-! ## Entering -/

/-- Entering the tree is entering its first part. -/
def EntersFirst (t p : Tree α σ) (ps : List (Tree α σ)) : Prop :=
  ∀ w, ∃ t', enter t w = ((enter p w).1, t', (enter p w).2.2) ∧ t'.Filled ∧ t'.parts = (enter p w).2.1 :: ps ∧
    ((enter p w).1 = .ok () → At t' (.here [] (enter p w).2.1 ps true))

omit [Block α σ] in
/-- After an attempt to enter a child that succeeds or fails as its first part does, the sequence stands at that part. -/
theorem At.attempted {r : Outcome} {c p : Tree α σ} {ps : List (Tree α σ)} (hparts : c.parts = p :: ps)
    (hok : r = .ok () → At c (.here [] p ps true)) (xs ys : List (Tree α σ)) :
    At (.sequence (xs ++ c :: ys) xs.length r.isOk) (.here (partsOf xs) p (ps ++ partsOf ys) r.isOk) := by
  cases r with
  | error err => exact At.waiting hparts
  | ok u =>
    have hinside : At (.sequence (xs ++ c :: ys) xs.length true) (.here (partsOf xs ++ []) p (ps ++ partsOf ys) true) :=
      At.inside (hok rfl)
    rwa [List.append_nil] at hinside

/-- Entering a sequence that has a child. -/
theorem EntersFirst.enter_sequence {c p : Tree α σ} {ps cs : List (Tree α σ)} (hc : EntersFirst c p ps)
    (hcs : ∀ d ∈ cs, Filled d) (i : Nat) (e : Bool) (w : σ) :
    ∃ t', enter (sequence (c :: cs) i e) w = ((enter p w).1, t', (enter p w).2.2) ∧ t'.Filled ∧
      At t' (.here [] (enter p w).2.1 (ps ++ partsOf cs) (enter p w).1.isOk) := by
  obtain ⟨c', henter, hfilled, hparts, hok⟩ := hc w
  refine ⟨sequence (c' :: cs) 0 (enter p w).1.isOk, ?_, ?_, At.attempted hparts hok [] cs⟩
  · have hmiddle : enterAt (c :: cs) 0 w = ((enter p w).1, c' :: cs, (enter p w).2.2) := by
      simp only [enterAt, henter]
    simp [enter, hmiddle, entered]
  · refine .sequence (List.cons_ne_nil c' cs) fun d hd => ?_
    rcases List.mem_cons.mp hd with rfl | hd
    · exact hfilled
    · exact hcs d hd

/-- Entering a tree that is filled enters its first part. -/
theorem Filled.entersFirst {t : Tree α σ} (ht : t.Filled) : ∃ p ps, t.parts = p :: ps ∧ EntersFirst t p ps := by
  induction ht with
  | @part t ht =>
    refine ⟨t, [], ht.parts_eq, fun w => ⟨(t.enter w).2.1, rfl, .part (ht.enter w), (ht.enter w).parts_eq, fun _ => ?_⟩⟩
    exact At.part (ht.enter w)
  | @sequence cs i e hne hcs ih =>
    cases cs with
    | nil => exact absurd rfl hne
    | cons c cs =>
      obtain ⟨p, ps, hparts, hfirst⟩ := ih c (by simp)
      have hrest : ∀ d ∈ cs, Filled d := fun d hd => hcs d (List.mem_cons_of_mem c hd)
      refine ⟨p, ps ++ partsOf cs, by simp [parts, partsOf, hparts], fun w => ?_⟩
      obtain ⟨t', henter, hfilled, hat⟩ := hfirst.enter_sequence hrest i e w
      refine ⟨t', henter, hfilled, hat.parts_eq, fun hok => ?_⟩
      rwa [hok] at hat

/-! ## Ticking -/

omit [Block α σ] in
/-- A tree is past its parts when these are its parts. -/
theorem At.past_iff {t : Tree α σ} {ps : List (Tree α σ)} : At t (.past ps) ↔ t.parts = ps := by
  constructor
  · intro h
    exact h.parts_eq
  · rintro rfl
    exact .past

/-- A cursor that goes on to a part goes on to it among further parts. -/
theorem Position.goOn_within {gone rest before after : List (Tree α σ)} {p : Tree α σ} {e : Bool} {w w' : σ}
    {r : Except BlockError Bool} (h : goOn gone rest w = (r, .here before p after e, w')) :
    r ≠ .ok true ∧ ∀ xs ys, goOn (xs ++ gone) (rest ++ ys) w = (r, .here (xs ++ before) p (after ++ ys) e, w') := by
  cases rest with
  | nil => simp [goOn] at h
  | cons q rest =>
    obtain ⟨rfl, ⟨rfl, rfl, rfl, rfl⟩, rfl⟩ := by simpa [goOn] using h
    refine ⟨?_, fun _ _ => rfl⟩
    cases (enter q w).1 <;> simp [Except.map]

/-- Going on ends past the parts only where none is left. -/
theorem Position.goOn_past {gone rest all : List (Tree α σ)} {w w' : σ} {r : Except BlockError Bool}
    (h : goOn gone rest w = (r, .past all, w')) : rest = [] ∧ r = .ok true ∧ gone = all ∧ w = w' := by
  cases rest with
  | nil =>
    obtain ⟨rfl, rfl, rfl⟩ := by simpa [goOn] using h
    exact ⟨rfl, rfl, rfl, rfl⟩
  | cons q rest => simp [goOn] at h

/-- A step of a cursor that stays among its parts does not tell that it leaves them, and is the same among further parts. -/
theorem Position.step_within {dt : Float} {before after before' after' : List (Tree α σ)} {p p' : Tree α σ} {e e' : Bool}
    {w w' : σ} {r : Except BlockError Bool} (h : (here before p after e).step dt w = (r, .here before' p' after' e', w')) :
    r ≠ .ok true ∧ ∀ xs ys, (here (xs ++ before) p (after ++ ys) e).step dt w =
      (r, .here (xs ++ before') p' (after' ++ ys) e', w') := by
  cases e with
  | false =>
    rw [step] at h
    exact goOn_within h
  | true =>
    simp only [step] at h ⊢
    rcases hp : stepChild dt p w with ⟨err | _ | _, p'', w''⟩ <;> rw [hp] at h
    · obtain ⟨rfl, ⟨rfl, rfl, rfl, rfl⟩, rfl⟩ := by simpa using h
      exact ⟨by simp, fun _ _ => rfl⟩
    · obtain ⟨rfl, ⟨rfl, rfl, rfl, rfl⟩, rfl⟩ := by simpa using h
      exact ⟨by simp, fun _ _ => rfl⟩
    · simpa only [List.append_assoc] using goOn_within h

/-- A cursor that leaves its parts goes on to the part that follows them. -/
theorem Position.step_leaving {dt : Float} {before after all : List (Tree α σ)} {p : Tree α σ} {e : Bool} {w w' : σ}
    {r : Except BlockError Bool} (h : (here before p after e).step dt w = (r, .past all, w')) :
    r = .ok true ∧ ∀ xs ys, (here (xs ++ before) p (after ++ ys) e).step dt w = goOn (xs ++ all) ys w' := by
  cases e with
  | false =>
    rw [step] at h
    nomatch (goOn_past h).1
  | true =>
    simp only [step] at h ⊢
    rcases hp : stepChild dt p w with ⟨err | _ | _, p'', w''⟩ <;> rw [hp] at h
    · simp at h
    · simp at h
    · obtain ⟨rfl, rfl, rfl, rfl⟩ := goOn_past h
      exact ⟨rfl, fun xs ys => by simp only [List.append_assoc, List.nil_append]⟩

/-- A step of a tree ends as a step of a cursor does, and leaves the tree in step with it. -/
def Matches (x : Except BlockError Bool × Tree α σ × σ) (y : Except BlockError Bool × Position α σ × σ) : Prop :=
  ∃ t, x = (y.1, t, y.2.2) ∧ t.Filled ∧ At t y.2.1

/-- The tree does what the cursor does in a tick, and is then in step with it again. -/
def Follows (dt : Float) (t : Tree α σ) (pos : Position α σ) (w : σ) : Prop := Matches (stepChild dt t w) (pos.step dt w)

/-- A part follows the position that it makes up alone. -/
theorem follows_part {t : Tree α σ} (ht : t.IsPart) (dt : Float) (w : σ) : Follows dt t (.here [] t [] true) w := by
  have hpart := ht.stepChild dt w
  unfold Follows
  simp only [Position.step]
  rcases hstep : stepChild dt t w with ⟨err | _ | _, t', w'⟩ <;> rw [hstep] at hpart
  · exact ⟨t', rfl, .part hpart, .part hpart⟩
  · exact ⟨t', rfl, .part hpart, .part hpart⟩
  · exact ⟨t', rfl, .part hpart, At.past_iff.mpr (IsPart.parts_eq hpart)⟩

/-- A sequence that waits to enter a child follows the position of that child's first part. -/
theorem follows_waiting {xs ys ps : List (Tree α σ)} {c p : Tree α σ}
    (hfilled : (sequence (xs ++ c :: ys) xs.length false).Filled) (hparts : c.parts = p :: ps) (dt : Float) (w : σ) :
    Follows dt (sequence (xs ++ c :: ys) xs.length false) (.here (partsOf xs) p (ps ++ partsOf ys) false) w := by
  obtain ⟨p', ps', hparts', hfirst⟩ := (hfilled.child c (by simp)).entersFirst
  obtain ⟨rfl, rfl⟩ : p = p' ∧ ps = ps' := by simpa using hparts.symm.trans hparts'
  obtain ⟨c', henter, hc', hsame, hok⟩ := hfirst w
  have hrun := run_middle_retry dt xs ys c w
  rw [henter] at hrun
  refine ⟨_, ?_, hfilled.replace hc' _ _, At.attempted hsame hok xs ys⟩
  rw [stepChild_sequence dt (length_lt_middle xs ys c), hrun, isComplete_middle]
  rfl

section

variable {xs ys : List (Tree α σ)} {c c' : Tree α σ} {dt : Float} {w w' : σ}
  (hfilled : (sequence (xs ++ c :: ys) xs.length true).Filled)

include hfilled

/-- A sequence whose child is not finished does what the child does. -/
theorem matches_within {r : Except BlockError Bool} (hstep : stepChild dt c w = (r, c', w')) (hr : r ≠ .ok true) (hc' : c'.Filled)
    {before after : List (Tree α σ)} {p : Tree α σ} {e : Bool} (hat : At c' (.here before p after e)) :
    Matches (stepChild dt (sequence (xs ++ c :: ys) xs.length true) w)
      (r, .here (partsOf xs ++ before) p (after ++ partsOf ys) e, w') := by
  refine ⟨sequence (xs ++ c' :: ys) xs.length true, ?_, hfilled.replace hc' _ _, .inside hat⟩
  rw [stepChild_sequence dt (length_lt_middle xs ys c)]
  match r with
  | .error err =>
    rw [run_middle_error hstep]
    rfl
  | .ok false =>
    rw [run_middle_busy hstep, isComplete_middle]
    rfl
  | .ok true => exact absurd rfl hr

/-- A sequence whose child is finished goes on to the next one, if there is one. -/
theorem matches_leaving (hstep : stepChild dt c w = (.ok true, c', w')) (hc' : c'.Filled) :
    Matches (stepChild dt (sequence (xs ++ c :: ys) xs.length true) w)
      (Position.goOn (partsOf xs ++ c'.parts) (partsOf ys) w') := by
  have hall : partsOf (xs ++ [c']) = partsOf xs ++ c'.parts := by
    rw [partsOf_append, partsOf, partsOf, List.append_nil]
  rw [stepChild_sequence dt (length_lt_middle xs ys c)]
  cases ys with
  | nil =>
    rw [run_middle_last hstep]
    refine ⟨sequence (xs ++ [c']) (xs.length + 1) false, ?_, hfilled.replace hc' _ _, At.past_iff.mpr hall⟩
    simp [isComplete, Except.map, partsOf, Position.goOn]
  | cons d ds =>
    obtain ⟨q, qs, hparts, hfirst⟩ := (hfilled.child d (by simp)).entersFirst
    obtain ⟨d', henter, hd', hsame, hok⟩ := hfirst w'
    have hsplit : ∀ z, xs ++ c' :: z :: ds = (xs ++ [c']) ++ z :: ds := fun z => by simp
    have hlength : xs.length + 1 = (xs ++ [c']).length := by simp
    have hreplaced := hfilled.replace hc' xs.length true
    rw [hsplit] at hreplaced
    rw [run_middle_next hstep, henter, hsplit, hlength, isComplete_middle, partsOf, hparts, List.cons_append, ← hall]
    exact ⟨_, rfl, hreplaced.replace hd' _ _, At.attempted hsame hok (xs ++ [c']) ds⟩

/-- A sequence follows the cursor as the child that it holds entered does. -/
theorem follows_inside {before after : List (Tree α σ)} {p : Tree α σ} {e : Bool} (hc : Follows dt c (.here before p after e) w) :
    Follows dt (sequence (xs ++ c :: ys) xs.length true) (.here (partsOf xs ++ before) p (after ++ partsOf ys) e) w := by
  obtain ⟨c', hstep, hc', hat⟩ := hc
  unfold Follows
  rcases hpos : (Position.here before p after e).step dt w with ⟨r, ⟨before', p', after', e'⟩ | all, w'⟩
  all_goals rw [hpos] at hstep hat
  · obtain ⟨hr, hwithin⟩ := Position.step_within hpos
    rw [hwithin]
    exact matches_within hfilled hstep hr hc' hat
  · obtain ⟨rfl, hleaving⟩ := Position.step_leaving hpos
    rw [hleaving, ← At.past_iff.mp hat]
    exact matches_leaving hfilled hstep hc'

end

/-- A tree of sequences does what the cursor does that its cursors lead to. -/
theorem At.follows {t p : Tree α σ} {before after : List (Tree α σ)} {e : Bool} (h : At t (.here before p after e))
    (ht : t.Filled) (dt : Float) (w : σ) : Follows dt t (.here before p after e) w := by
  generalize hpos : Position.here before p after e = pos at h
  induction h generalizing before p after e with
  | part hpart => exact follows_part hpart dt w
  | waiting hparts => exact follows_waiting ht hparts dt w
  | @inside xs ys before after c p e hc ih => exact follows_inside ht (ih (ht.child c (by simp)) rfl)
  | past => nomatch hpos

/-! ## Creating and destroying -/

/-- A call that reaches the children of a sequence in turn, wherever its cursor stands. -/
structure ReachesAll (call : Tree α σ → σ → Tree α σ × σ) : Prop where
  sequence : ∀ cs i e w, call (sequence cs i e) w = (.sequence (inTurn call cs w).1 i e, (inTurn call cs w).2)
  part : ∀ {p : Tree α σ}, p.IsPart → ∀ w, (call p w).1.IsPart

/-- Creating reaches all children. -/
theorem create_reachesAll : ReachesAll (create (α := α) (σ := σ)) where
  sequence cs i e w := by rw [create, createAll_eq]
  part {p} h w := by
    cases p with
    | leaf b => trivial
    | sequence cs i e => exact h.elim
    | loop k cs i s e => trivial

/-- Destroying reaches all children. -/
theorem destroy_reachesAll : ReachesAll (destroy (α := α) (σ := σ)) where
  sequence cs i e w := by rw [destroy, destroyAll_eq]
  part {p} h w := by
    cases p with
    | leaf b => trivial
    | sequence cs i e => exact h.elim
    | loop k cs i s e => trivial

section

variable {call : Tree α σ → σ → Tree α σ × σ}

omit [Block α σ] in
theorem inTurn_append (call : Tree α σ → σ → Tree α σ × σ) (xs ys : List (Tree α σ)) (w : σ) :
    inTurn call (xs ++ ys) w =
      ((inTurn call xs w).1 ++ (inTurn call ys (inTurn call xs w).2).1, (inTurn call ys (inTurn call xs w).2).2) := by
  induction xs generalizing w with
  | nil => rfl
  | cons x xs ih => simp only [List.cons_append, inTurn, ih]

omit [Block α σ] in
theorem length_inTurn (call : Tree α σ → σ → Tree α σ × σ) (cs : List (Tree α σ)) (w : σ) :
    (inTurn call cs w).1.length = cs.length := by
  induction cs generalizing w with
  | nil => rfl
  | cons c cs ih => simp only [inTurn, List.length_cons, ih]

/-- The call does to the tree what it does to its parts in turn. -/
def ActsOnParts (call : Tree α σ → σ → Tree α σ × σ) (t : Tree α σ) : Prop :=
  ∀ w, (call t w).1.Filled ∧ (call t w).1.parts = (inTurn call t.parts w).1 ∧ (call t w).2 = (inTurn call t.parts w).2

omit [Block α σ] in
/-- A call on children in turn is the call on their parts in turn, if it acts so on each child. -/
theorem inTurn_partsOf {cs : List (Tree α σ)} (hcs : ∀ c ∈ cs, ActsOnParts call c) (w : σ) :
    (∀ c ∈ (inTurn call cs w).1, Filled c) ∧ partsOf (inTurn call cs w).1 = (inTurn call (partsOf cs) w).1 ∧
      (inTurn call cs w).2 = (inTurn call (partsOf cs) w).2 := by
  induction cs generalizing w with
  | nil => exact ⟨nofun, rfl, rfl⟩
  | cons c cs ih =>
    obtain ⟨hfilled, hparts, hworld⟩ := hcs c (by simp) w
    obtain ⟨hfilled', hparts', hworld'⟩ := ih (fun d hd => hcs d (by simp [hd])) (call c w).2
    refine ⟨List.forall_mem_cons.mpr ⟨hfilled, hfilled'⟩, ?_, ?_⟩
    · rw [inTurn, partsOf, partsOf, inTurn_append, hparts, hparts', hworld]
    · rw [inTurn, partsOf, inTurn_append, hworld', hworld]

omit [Block α σ] in
/-- A call that reaches all children acts on the parts of a tree. -/
theorem ReachesAll.actsOnParts (h : ReachesAll call) {t : Tree α σ} (ht : t.Filled) : ActsOnParts call t := by
  induction ht with
  | part ht =>
    intro w
    have hpart := h.part ht w
    rw [ht.parts_eq]
    exact ⟨.part hpart, hpart.parts_eq, rfl⟩
  | @sequence cs i e hne hcs ih =>
    intro w
    obtain ⟨hfilled, hparts, hworld⟩ := inTurn_partsOf ih w
    rw [h.sequence]
    refine ⟨.sequence ?_ hfilled, hparts, hworld⟩
    rw [← List.length_pos_iff, length_inTurn]
    exact List.length_pos_iff.mpr hne

end

/-! ## Exiting -/

/-- The parts once the one under the cursor is exited, if it is entered. -/
def Position.exit : Position α σ → σ → List (Tree α σ) × σ
  | here before p after true, w => (before ++ (Tree.exit p w).1 :: after, (Tree.exit p w).2)
  | here before p after false, w => (before ++ p :: after, w)
  | past ps, w => (ps, w)

/-- What stands around a position has no share in exiting it. -/
theorem Position.exit_within (xs ys before after : List (Tree α σ)) (p : Tree α σ) (e : Bool) (w : σ) :
    (here (xs ++ before) p (after ++ ys) e).exit w =
      (xs ++ ((here before p after e).exit w).1 ++ ys, ((here before p after e).exit w).2) := by
  cases e <;> simp [exit]

/-- Exiting a tree exits the part at its position. -/
theorem At.exit {t p : Tree α σ} {before after : List (Tree α σ)} {e : Bool} (h : At t (.here before p after e)) (ht : t.Filled)
    (w : σ) :
    (t.exit w).1.Filled ∧ (t.exit w).1.parts = ((Position.here before p after e).exit w).1 ∧
      (t.exit w).2 = ((Position.here before p after e).exit w).2 := by
  generalize hpos : Position.here before p after e = pos at h
  induction h generalizing before p after e with
  | part hpart => exact ⟨.part (hpart.exit w), (hpart.exit w).parts_eq, rfl⟩
  | waiting hparts => exact ⟨ht, (At.waiting hparts).parts_eq, rfl⟩
  | inside hc ih =>
    obtain ⟨hfilled, hparts, hworld⟩ := ih (ht.child _ (by simp)) rfl
    simp only [Tree.exit, if_true, exitAt_middle, Position.exit_within]
    refine ⟨ht.replace hfilled _ _, ?_, hworld⟩
    rw [parts, partsOf_append, partsOf, hparts, List.append_assoc]
  | past => nomatch hpos

end BlockScript.Tree
