import BlockScript.Proofs.Block.Lifecycle
import BlockScript.Proofs.Block.Owner
import BlockScript.Proofs.Block.Parts

/-!
# Sequences within sequences

A position among the parts of a tree of sequences knows nothing of how the parts are nested. So an owner cannot tell between trees over
the same parts (`SameParts.endAlike`), and a nested tree does all that the flat sequence of its parts does (`nesting_is_free`).
-/

namespace BlockScript.Tree

variable {α : Type u} {σ : Type v} [Block α σ]

/-! ## Nested trees -/

/-- A sequence over the given parts, none of whose nested sequences is empty, and whether it reads complete. -/
inductive Nests : List (Tree α σ) → Bool → Tree α σ → Prop where
  | mk {cs : List (Tree α σ)} (i : Nat) (e : Bool) : (∀ c ∈ cs, Filled c) →
      Nests (partsOf cs) (decide (cs.length ≤ i)) (sequence cs i e)

/-- Such a sequence while it is entered, and the position that its cursors lead to. -/
inductive StandsAt : Position α σ → Tree α σ → Prop where
  | here {cs : List (Tree α σ)} {i : Nat} {f : Bool} {before after : List (Tree α σ)} {p : Tree α σ} {e : Bool} :
      At (sequence cs i f) (.here before p after e) → (∀ c ∈ cs, Filled c) →
      StandsAt (.here before p after e) (sequence cs i f)
  | past {cs : List (Tree α σ)} {i : Nat} : cs.length ≤ i → (∀ c ∈ cs, Filled c) →
      StandsAt (.past (partsOf cs)) (sequence cs i false)

/-- Whether a cursor is past all its parts. -/
def Position.isPast : Position α σ → Bool
  | here .. => false
  | past _ => true

omit [Block α σ] in
/-- The cursor of a sequence that stands at a part is before its end. -/
theorem At.cursor_lt {cs : List (Tree α σ)} {i : Nat} {f : Bool} {before after : List (Tree α σ)} {p : Tree α σ} {e : Bool}
    (h : At (sequence cs i f) (.here before p after e)) : i < cs.length := by
  cases h with
  | part h => exact h.elim
  | waiting => simp
  | inside => simp

omit [Block α σ] in
/-- A tree that stands somewhere nests the parts around that place. -/
theorem StandsAt.nests {pos : Position α σ} {t : Tree α σ} (h : StandsAt pos t) : Nests pos.all pos.isPast t := by
  cases h with
  | @here cs i f before after p e hat hcs =>
    have hdone : decide (cs.length ≤ i) = false := decide_eq_false (Nat.not_le.mpr hat.cursor_lt)
    have hnests := Nests.mk i f hcs
    rw [hdone] at hnests
    rwa [← hat.parts_eq]
  | @past cs i hi hcs =>
    have hnests := Nests.mk i false hcs
    rwa [decide_eq_true hi] at hnests

/-- A tree that nests parts is complete when it is past them. -/
theorem Nests.isComplete_eq {ps : List (Tree α σ)} {done : Bool} {t : Tree α σ} (h : Nests ps done t) (w : σ) :
    t.isComplete w = done := by
  cases h with
  | mk => rfl

/-- Trees that nest the same parts are complete together. -/
theorem Nests.isComplete_alike {ps : List (Tree α σ)} {done : Bool} {t u : Tree α σ} (ht : Nests ps done t) (hu : Nests ps done u)
    (w w' : σ) : t.isComplete w = u.isComplete w' :=
  (ht.isComplete_eq w).trans (hu.isComplete_eq w').symm

omit [Block α σ] in
/-- Creating or destroying a nested tree. -/
theorem Nests.call {call : Tree α σ → σ → Tree α σ × σ} (hcall : ReachesAll call) {ps : List (Tree α σ)} {done : Bool}
    {t : Tree α σ} (h : Nests ps done t) (w : σ) :
    Nests (inTurn call ps w).1 done (call t w).1 ∧ (call t w).2 = (inTurn call ps w).2 := by
  cases h with
  | @mk cs i e hcs =>
    obtain ⟨hfilled, hparts, hworld⟩ := inTurn_partsOf (fun c hc => hcall.actsOnParts (hcs c hc)) w
    rw [hcall.sequence, ← hparts]
    refine ⟨?_, hworld⟩
    have hnests := Nests.mk i e hfilled
    rwa [length_inTurn] at hnests

/-- Entering a nested tree is entering its first part, if it has one. -/
theorem Nests.enter {ps : List (Tree α σ)} {done : Bool} {t : Tree α σ} (h : Nests ps done t) (w : σ) :
    ∃ t', t.enter w = ((Position.goOn [] ps w).1.map fun _ => (), t', (Position.goOn [] ps w).2.2) ∧
      StandsAt (Position.goOn [] ps w).2.1 t' := by
  cases h with
  | @mk cs i e hcs =>
    cases cs with
    | nil => exact ⟨_, rfl, .past (Nat.le_refl 0) hcs⟩
    | cons c cs =>
      obtain ⟨hc, hrest⟩ := List.forall_mem_cons.mp hcs
      obtain ⟨p, ps, hparts, hfirst⟩ := hc.entersFirst
      obtain ⟨t', henter, hfilled, hat⟩ := hfirst.enter_sequence hrest i e w
      obtain rfl : (Tree.enter (sequence (c :: cs) i e) w).2.1 = t' := congrArg (·.2.1) henter
      have hanswer : (((Tree.enter p w).1.map fun _ => false).map fun _ => ()) = (Tree.enter p w).1 := by
        cases (Tree.enter p w).1 <;> rfl
      rw [partsOf, hparts]
      refine ⟨_, henter.trans ?_, .here hat hfilled.child⟩
      exact congrArg (·, _) hanswer.symm

/-- A tick leaves a sequence a sequence. -/
theorem run_sequence_eq (dt : Float) (cs : List (Tree α σ)) (i : Nat) (e : Bool) (w : σ) :
    ∃ cs' j f, (run dt (sequence cs i e) w).2.1 = sequence cs' j f := by
  simp only [Tree.run]
  repeat' split
  all_goals exact ⟨_, _, _, rfl⟩

/-- After a tick a sequence stands where its cursors lead to, provided that it is complete if they are past all parts. -/
theorem StandsAt.of_run {cs : List (Tree α σ)} {i : Nat} {f : Bool} {dt : Float} {w w' : σ} {r : Outcome} {t : Tree α σ}
    {pos : Position α σ} (hi : i < cs.length) (hrun : Tree.run dt (sequence cs i f) w = (r, t, w')) (ht : t.Filled) (hat : At t pos)
    (hpast : ∀ all, pos = .past all → r = .ok () ∧ t.isComplete w' = true) : StandsAt pos t := by
  obtain ⟨cs', j, f', hsequence⟩ := run_sequence_eq dt cs i f w
  rw [hrun] at hsequence
  obtain rfl : t = sequence cs' j f' := hsequence
  cases pos with
  | here before p after e => exact .here hat ht.child
  | past all =>
    obtain ⟨rfl, hcomplete⟩ := hpast all rfl
    obtain ⟨_, _, hflag⟩ := not_entered_of_run hi hrun hcomplete
    obtain ⟨rfl, rfl, rfl⟩ := by simpa using hflag
    obtain rfl : partsOf cs' = all := At.past_iff.mp hat
    exact .past (isComplete_sequence.mp hcomplete) ht.child

/-- A tick of a nested tree is a step of its cursor. -/
theorem StandsAt.run {pos : Position α σ} {t : Tree α σ} (h : StandsAt pos t) (dt : Float) (w : σ) :
    ∃ t', t.run dt w = ((pos.step dt w).1.map fun _ => (), t', (pos.step dt w).2.2) ∧ StandsAt (pos.step dt w).2.1 t' := by
  cases h with
  | past hi hcs => exact ⟨_, run_sequence_done hi false, .past hi hcs⟩
  | @here cs i f before after p e hat hcs =>
    have hi : i < cs.length := hat.cursor_lt
    have hfilled : (sequence cs i f).Filled := .sequence (List.ne_nil_of_length_pos (Nat.zero_lt_of_lt hi)) hcs
    obtain ⟨t', hstep, hfilled', hat'⟩ := hat.follows hfilled dt w
    rw [stepChild_sequence dt hi] at hstep
    rcases hrun : Tree.run dt (sequence cs i f) w with ⟨r, t'', w'⟩
    rw [hrun] at hstep
    obtain ⟨hanswer, rfl, hworld⟩ : r.map (fun _ => t''.isComplete w') = ((Position.here before p after e).step dt w).1 ∧
        t'' = t' ∧ w' = ((Position.here before p after e).step dt w).2.2 := by simpa using hstep
    refine ⟨_, Prod.ext ?_ (Prod.ext rfl hworld), .of_run hi hrun hfilled' hat' fun all hpos => ?_⟩
    · rw [← hanswer]
      cases r <;> rfl
    · have hleft : ((Position.here before p after e).step dt w).1 = .ok true :=
        (Position.step_leaving (Prod.ext rfl (Prod.ext hpos rfl))).1
      rw [hleft] at hanswer
      cases r with
      | error err => nomatch hanswer
      | ok u => exact ⟨rfl, by simpa [Except.map] using hanswer⟩

/-- Exiting a tree exits the part where it stands. -/
theorem StandsAt.exit {pos : Position α σ} {t : Tree α σ} (h : StandsAt pos t) (w : σ) :
    Nests (pos.exit w).1 pos.isPast (t.exit w).1 ∧ (t.exit w).2 = (pos.exit w).2 := by
  cases h with
  | @past cs i hi hcs => exact ⟨(StandsAt.past hi hcs).nests, rfl⟩
  | @here cs i f before after p e hat hcs =>
    have hi : i < cs.length := hat.cursor_lt
    have hfilled : (sequence cs i f).Filled := .sequence (List.ne_nil_of_length_pos (Nat.zero_lt_of_lt hi)) hcs
    obtain ⟨hfilled', hparts, hworld⟩ := hat.exit hfilled w
    refine ⟨?_, hworld⟩
    obtain ⟨cs', f', hsequence, hlength⟩ :
        ∃ cs' f', (Tree.exit (sequence cs i f) w).1 = sequence cs' i f' ∧ cs'.length = cs.length := by
      cases f with
      | false => exact ⟨cs, false, rfl, rfl⟩
      | true => exact ⟨_, false, rfl, length_exitAt cs i w⟩
    rw [hsequence] at hfilled' hparts ⊢
    have hnests := Nests.mk i f' hfilled'.child
    rwa [hlength, decide_eq_false (Nat.not_le.mpr hi), show partsOf cs' = _ from hparts] at hnests

/-! ## Trees over the same parts -/

/-- Two nested trees over the same parts: while they are entered, with their cursors at the same part. -/
def SameParts : Bool → Tree α σ → Tree α σ → Prop
  | false, t, u => ∃ ps done, Nests ps done t ∧ Nests ps done u
  | true, t, u => ∃ pos, StandsAt pos t ∧ StandsAt pos u

omit [Block α σ] in
/-- Trees that stand at the same place have the same parts. -/
theorem SameParts.of_standsAt {pos : Position α σ} {t u : Tree α σ} (ht : StandsAt pos t) (hu : StandsAt pos u) :
    ∀ active, SameParts active t u
  | false => ⟨_, _, ht.nests, hu.nests⟩
  | true => ⟨pos, ht, hu⟩

/-- Every call that the contract allows ends alike on trees over the same parts. -/
theorem SameParts.endAlike {active : Bool} {t u : Tree α σ} (h : SameParts active t u) {call : OwnerCall}
    (hcall : call.Allowed active) (w : σ) : EndAlike (SameParts (call.leavesActive (call.make t w).1)) (call.make t w) (call.make u w) := by
  have hidle : ∀ {call : Tree α σ → σ → Tree α σ × σ}, ReachesAll call → active = false →
      EndAlike (SameParts false) (Except.ok (), call t w) (.ok (), call u w) := by
    rintro call hreaches rfl
    obtain ⟨ps, done, ht, hu⟩ := h
    obtain ⟨ht', hworld⟩ := ht.call hreaches w
    obtain ⟨hu', hworld'⟩ := hu.call hreaches w
    exact ⟨rfl, hworld.trans hworld'.symm, ht'.isComplete_alike hu' _ _, _, _, ht', hu'⟩
  cases call with
  | create => exact hidle create_reachesAll hcall
  | destroy => exact hidle destroy_reachesAll hcall
  | enter =>
    obtain rfl : active = false := hcall
    obtain ⟨ps, done, ht, hu⟩ := h
    obtain ⟨t', henter, ht'⟩ := ht.enter w
    obtain ⟨u', henter', hu'⟩ := hu.enter w
    simp only [OwnerCall.make, Block.enter, henter, henter']
    exact ⟨rfl, rfl, ht'.nests.isComplete_alike hu'.nests _ _, .of_standsAt ht' hu' _⟩
  | run dt =>
    obtain rfl : active = true := hcall
    obtain ⟨pos, ht, hu⟩ := h
    obtain ⟨t', hrun, ht'⟩ := ht.run dt w
    obtain ⟨u', hrun', hu'⟩ := hu.run dt w
    simp only [OwnerCall.make, Block.run, hrun, hrun']
    exact ⟨rfl, rfl, ht'.nests.isComplete_alike hu'.nests _ _, .of_standsAt ht' hu' _⟩
  | exit =>
    obtain rfl : active = true := hcall
    obtain ⟨pos, ht, hu⟩ := h
    obtain ⟨ht', hworld⟩ := ht.exit w
    obtain ⟨hu', hworld'⟩ := hu.exit w
    exact ⟨rfl, hworld.trans hworld'.symm, ht'.isComplete_alike hu' _ _, _, _, ht', hu'⟩

/-- A sequence over trees and the sequence over the parts of these trees have the same parts. -/
theorem sameParts_flat {cs : List (Tree α σ)} (hcs : ∀ c ∈ cs, Filled c) :
    SameParts false (ofList cs) (ofList (partsOf cs)) := by
  have hflat : partsOf (partsOf cs) = partsOf cs := partsOf_of_isPart isPart_of_mem_partsOf
  have hempty : decide ((partsOf cs).length ≤ 0) = decide (cs.length ≤ 0) := by
    cases cs with
    | nil => rfl
    | cons c cs =>
      obtain ⟨p, ps, hparts, -⟩ := (hcs c (by simp)).entersFirst
      simp [partsOf, hparts]
  have hfilled : ∀ p ∈ partsOf cs, Filled p := fun p hp => .part (isPart_of_mem_partsOf p hp)
  have hnests := Nests.mk 0 false hfilled
  rw [hflat, hempty] at hnests
  exact ⟨partsOf cs, _, .mk 0 false hcs, hnests⟩

/-! ## Observing the parts -/

mutual

/-- The tree with each of its parts observed as a whole, under its number from left to right. -/
def observeParts (first : Nat) : Tree α σ → Tree (Observed Nat (Tree α σ)) (Observation Nat σ)
  | leaf b => leaf ⟨first, leaf b⟩
  | sequence cs i e => sequence (observePartsOf first cs) i e
  | loop k cs i s e => leaf ⟨first, loop k cs i s e⟩
termination_by structural t => t

/-- Some trees with each of their parts observed. -/
def observePartsOf (first : Nat) : List (Tree α σ) → List (Tree (Observed Nat (Tree α σ)) (Observation Nat σ))
  | [] => []
  | c :: cs => observeParts first c :: observePartsOf (first + c.parts.length) cs
termination_by structural cs => cs

end

/-- Some blocks, each observed under its number. -/
def observeEach (first : Nat) (ps : List (Tree α σ)) : List (Tree (Observed Nat (Tree α σ)) (Observation Nat σ)) :=
  (ps.zipIdx first).map fun x => leaf ⟨x.2, x.1⟩

omit [Block α σ] in
theorem observeEach_append (first : Nat) (ps qs : List (Tree α σ)) :
    observeEach first (ps ++ qs) = observeEach first ps ++ observeEach (first + ps.length) qs := by
  simp [observeEach, List.zipIdx_append]

omit [Block α σ] in
/-- Parts are observed in place. -/
theorem observePartsOf_filled {cs : List (Tree α σ)}
    (h : ∀ c ∈ cs, ∀ n, (observeParts n c).Filled ∧ (observeParts n c).parts = observeEach n c.parts) (first : Nat) :
    (∀ c ∈ observePartsOf first cs, Filled c) ∧ partsOf (observePartsOf first cs) = observeEach first (partsOf cs) := by
  induction cs generalizing first with
  | nil => exact ⟨nofun, rfl⟩
  | cons c cs ih =>
    obtain ⟨hfilled, hparts⟩ := h c (by simp) first
    obtain ⟨hfilled', hparts'⟩ := ih (fun d hd => h d (by simp [hd])) (first + c.parts.length)
    refine ⟨List.forall_mem_cons.mpr ⟨hfilled, hfilled'⟩, ?_⟩
    rw [observePartsOf, partsOf, partsOf, observeEach_append, hparts, hparts']

omit [Block α σ] in
/-- Observing the parts of a tree keeps it filled, and its parts are the observed ones. -/
theorem Filled.observeParts {t : Tree α σ} (ht : t.Filled) :
    ∀ first, (t.observeParts first).Filled ∧ (t.observeParts first).parts = observeEach first t.parts := by
  induction ht with
  | @part t ht =>
    intro first
    cases t with
    | leaf b => exact ⟨.part trivial, rfl⟩
    | sequence cs i e => exact ht.elim
    | loop k cs i s e => exact ⟨.part trivial, rfl⟩
  | @sequence cs i e hne _ ih =>
    intro first
    obtain ⟨hfilled, hparts⟩ := observePartsOf_filled ih first
    refine ⟨.sequence ?_ hfilled, hparts⟩
    cases cs with
    | nil => exact absurd rfl hne
    | cons c cs => exact List.cons_ne_nil _ _

/-- Nesting is free. A sequence over trees none of whose sequences is empty, and the flat sequence over the leaves and loops of these
trees, cannot be told apart by an owner that keeps the contract, whatever the leaves and tests do: every call ends alike, leaves the
same world, and leaves both complete or neither. And where all of these leaves and loops are observed, every call leaves the same
log: it makes the same calls on the same of them in the same order. -/
theorem nesting_is_free {cs : List (Tree α σ)} (hcs : ∀ c ∈ cs, Filled c) :
    (∀ calls, KeepsContract false calls (ofList cs) → account calls (ofList cs) = account calls (ofList (partsOf cs))) ∧
    ∀ calls, KeepsContract false calls (ofList (observePartsOf 0 cs)) →
      account calls (ofList (observePartsOf 0 cs)) = account calls (ofList (observeEach 0 (partsOf cs))) := by
  obtain ⟨hobserved, hparts⟩ := observePartsOf_filled (fun c hc => (hcs c hc).observeParts) 0
  have hsame := sameParts_flat hobserved
  rw [hparts] at hsame
  exact ⟨fun calls hcalls => account_eq (fun _ _ _ h _ => h.endAlike) calls (sameParts_flat hcs) hcalls,
    fun calls hcalls => account_eq (fun _ _ _ h _ => h.endAlike) calls hsame hcalls⟩

/-- A callback, then a wait and a loop in a sequence of their own, with a sequence of one around the wait. -/
def lampNest : List (Tree (Primitive Bool) Bool) :=
  [.leaf (.perform not), .ofList [.ofList [.leaf (.waitFor lampSlot 1.0)], .repeating .forever [.leaf (.perform id)]]]

/-- The tick that finishes the callback finds the slot empty, so that the wait cannot be entered; it is entered in the next one, and
the owner then starts afresh. -/
def lampCalls : List (OwnerCall × Bool) :=
  [(.create, true), (.enter, true), (.run 1.0, true), (.run 1.0, true), (.run 1.0, true), (.exit, true), (.enter, false),
    (.run 1.0, false), (.exit, false), (.destroy, true)]

/-- The same calls where the leaves and loops are observed, each with an empty log at first. -/
def lampObservedCalls : List (OwnerCall × Observation Nat Bool) := lampCalls.map fun x => (x.1, ⟨x.2, []⟩)

/-- The nest and its parts in a row, bare and observed. -/
theorem nesting_is_free_lamp : (∀ c ∈ lampNest, c.Filled) ∧
    (KeepsContract false lampCalls (ofList lampNest) ∧
      account lampCalls (ofList lampNest) = account lampCalls (ofList (partsOf lampNest))) ∧
    (KeepsContract false lampObservedCalls (ofList (observePartsOf 0 lampNest)) ∧
      account lampObservedCalls (ofList (observePartsOf 0 lampNest)) =
        account lampObservedCalls (ofList (observeEach 0 (partsOf lampNest)))) := by
  have hfilled : ∀ c ∈ lampNest, c.Filled := by
    have hleaf : ∀ b, Filled (.leaf b : Tree (Primitive Bool) Bool) := fun _ => .part trivial
    have hloop : ∀ k cs i s e, Filled (.loop k cs i s e : Tree (Primitive Bool) Bool) := fun _ _ _ _ _ => .part trivial
    simp [lampNest, ofList, repeating, hleaf, Filled.sequence, hloop]
  have hcalls : KeepsContract false lampCalls (ofList lampNest) :=
    ⟨rfl, rfl, rfl, rfl, rfl, rfl, rfl, rfl, rfl, rfl, trivial⟩
  have hobserved : KeepsContract false lampObservedCalls (ofList (observePartsOf 0 lampNest)) :=
    ⟨rfl, rfl, rfl, rfl, rfl, rfl, rfl, rfl, rfl, rfl, trivial⟩
  obtain ⟨hsame, hsameLog⟩ := nesting_is_free hfilled
  exact ⟨hfilled, ⟨hcalls, hsame lampCalls hcalls⟩, hobserved, hsameLog lampObservedCalls hobserved⟩

end BlockScript.Tree
