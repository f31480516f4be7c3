import BlockScript.Proofs.Block.Blank
import BlockScript.Proofs.Block.Course

/-!
# Unrolling a loop

A loop that never stops goes over its body again and again, and so does a sequence of copies of the body until it runs out of them.
The loop uses the same blocks in every pass, with all that earlier passes left in them, and the sequence uses each copy once; since
entering a block discards what was left in it, nobody can tell (`forever_unrolled`). Loop and sequence are `Unrolled` while the cursor
of the loop is that of the sequence modulo the length of the body; only the tick that takes the sequence past its last copy ends this.
-/

namespace BlockScript

/-! ## Copies of a list -/

/-- An item of some copies of a list is the item of the list under the index modulo its length. -/
theorem getElem?_copies {α : Type u} (n : Nat) (xs : List α) (k : Nat) :
    (List.replicate n xs).flatten[k]? = if k < n * xs.length then xs[k % xs.length]? else none := by
  induction n generalizing k with
  | zero => simp
  | succ n ih =>
    rw [List.replicate_succ, List.flatten_cons]
    rcases Nat.lt_or_ge k xs.length with hk | hk
    · have hlt : k < (n + 1) * xs.length := Nat.lt_of_lt_of_le hk (Nat.le_mul_of_pos_left _ (Nat.succ_pos n))
      rw [List.getElem?_append_left hk, if_pos hlt, Nat.mod_eq_of_lt hk]
    · have hiff : k - xs.length < n * xs.length ↔ k < (n + 1) * xs.length := by
        rw [Nat.succ_mul]
        omega
      rw [List.getElem?_append_right hk, ih, ← Nat.mod_eq_sub_mod hk]
      simp only [hiff]

/-! ## The children of loop and sequence -/

section

variable {σ : Type v}

/-- The blocks of a loop and of a sequence of copies of its body, by what they were built as. -/
structure Copies (body : List (BuiltIn σ)) (n : Nat) (ls ss : List (BuiltIn σ)) : Prop where
  loop : ls.map BuiltIn.blank = body
  sequence : ss.map BuiltIn.blank = (List.replicate n body).flatten

namespace Copies

variable {body ls ss : List (BuiltIn σ)} {n : Nat} (h : Copies body n ls ss)

include h

theorem length_loop : ls.length = body.length := by
  simpa using congrArg List.length h.loop

theorem length_sequence : ss.length = n * body.length := by
  simpa using congrArg List.length h.sequence

/-- Every block of the sequence is a copy of the block that the loop comes to with it. -/
theorem same {k : Nat} {c d : BuiltIn σ} (hc : ls[k % body.length]? = some c) (hd : ss[k]? = some d) : c.SameBlocks d := by
  have hk : k < n * body.length := h.length_sequence ▸ (List.getElem?_eq_some_iff.mp hd).1
  have hloop := congrArg (·[k % body.length]?) h.loop
  have hsequence := congrArg (·[k]?) h.sequence
  simp only [List.getElem?_map, hc, Option.map_some] at hloop
  simp only [List.getElem?_map, hd, Option.map_some, getElem?_copies, if_pos hk] at hsequence
  exact BuiltIn.sameBlocks_of_blank (Option.some.inj (hloop.trans hsequence.symm))

/-- A block of either is replaced by itself in another state. -/
theorem set {i k : Nat} {c c' d d' : BuiltIn σ} (hc : ls[i]? = some c) (hc' : c'.blank = c.blank) (hd : ss[k]? = some d)
    (hd' : d'.blank = d.blank) : Copies body n (ls.set i c') (ss.set k d') where
  loop := (Tree.map_blank_set Primitive.blank hc hc').trans h.loop
  sequence := (Tree.map_blank_set Primitive.blank hd hd').trans h.sequence

end Copies

/-- The blocks at two indices are under way, and in step. -/
def UnderWay (ls : List (BuiltIn σ)) (i : Nat) (ss : List (BuiltIn σ)) (j : Nat) : Prop :=
  ∃ c d, ls[i]? = some c ∧ ss[j]? = some d ∧ Tree.InStep Primitive.Akin Eq Eq c d

/-- A loop that never stops and a sequence of copies of its body that is not complete, with their cursors at the same point. -/
inductive Unrolled (body : List (BuiltIn σ)) (n : Nat) : BuiltIn σ → BuiltIn σ → Prop where
  | mk {ls ss : List (BuiltIn σ)} {j : Nat} {e : Bool} : Copies body n ls ss → j < ss.length →
      (e = true → UnderWay ls (j % body.length) ss j) →
      Unrolled body n (Tree.composite .forever ls (j % body.length) e) (Tree.composite .once ss j e)

namespace Copies

variable {body ls ss : List (BuiltIn σ)} {n : Nat} (h : Copies body n ls ss)

include h

/-- Both have a block to go on with while the sequence is not complete. -/
theorem getElem? {k : Nat} (hk : k < ss.length) : ∃ c d, ls[k % body.length]? = some c ∧ ss[k]? = some d := by
  have hbody : 0 < body.length := by
    rw [h.length_sequence] at hk
    exact Nat.pos_of_mul_pos_left (Nat.zero_lt_of_lt hk)
  have hlt : k % body.length < ls.length := by
    rw [h.length_loop]
    exact Nat.mod_lt k hbody
  exact ⟨_, _, List.getElem?_eq_getElem hlt, List.getElem?_eq_getElem hk⟩

/-- Both attempt to enter the block that comes next. -/
theorem attempt {k : Nat} (hk : k < ss.length) (w : σ) : ∃ r l s w',
    Tree.attempt .forever ls (k % body.length) w = (r, l, w') ∧ Tree.attempt .once ss k w = (r, s, w') ∧ Unrolled body n l s := by
  obtain ⟨c, d, hc, hd⟩ := h.getElem? hk
  have hi : k % body.length < ls.length := (List.getElem?_eq_some_iff.mp hc).1
  have hsame := h.same hc hd
  obtain ⟨hanswer, -, hworld⟩ := BuiltIn.lockstep.enter hsame (rfl : w = w)
  have hanswer' : (d.enter w).1 = (c.enter w).1 := hanswer.symm
  have hworld' : (d.enter w).2.2 = (c.enter w).2.2 := hworld.symm
  have hblank := Tree.blank_enter (Primitive.blank_lasting (σ := σ))
  have hset := h.set hc (hblank c w) hd (hblank d w)
  rw [Tree.attempt_of_getElem? .forever hc, Tree.attempt_of_getElem? .once hd, hanswer', hworld']
  refine ⟨_, _, _, _, rfl, rfl, .mk hset (by simpa using hk) fun hok => ?_⟩
  refine ⟨_, _, List.getElem?_set_self hi, List.getElem?_set_self hk, BuiltIn.lockstep.entered hsame rfl ?_⟩
  cases hr : (c.enter w).1 with
  | error err => simp [hr, Except.isOk, Except.toBool] at hok
  | ok u => rfl

variable {i j : Nat}

/-- Both run the block that is under way. -/
theorem step (hway : UnderWay ls i ss j) (dt : Float) (w : σ) : ∃ c d r c' d' w', ls[i]? = some c ∧ ss[j]? = some d ∧
    c.run dt w = (r, c', w') ∧ d.run dt w = (r, d', w') ∧ Tree.InStep Primitive.Akin Eq Eq c' d' ∧
    Copies body n (ls.set i c') (ss.set j d') := by
  obtain ⟨c, d, hc, hd, hin⟩ := hway
  obtain ⟨hanswer, hstep, hworld⟩ := BuiltIn.lockstep.run dt hin (rfl : w = w)
  have hanswer' : (d.run dt w).1 = (c.run dt w).1 := hanswer.symm
  have hworld' : (d.run dt w).2.2 = (c.run dt w).2.2 := hworld.symm
  have hblank := Tree.blank_run (Primitive.blank_lasting (σ := σ)) dt
  exact ⟨c, d, (c.run dt w).1, (c.run dt w).2.1, (d.run dt w).2.1, (c.run dt w).2.2, hc, hd, rfl,
    Prod.ext hanswer' (Prod.ext rfl hworld'), hstep, h.set hc (hblank c w) hd (hblank d w)⟩

/-- Both exit the block that is under way. -/
theorem exit {c d : BuiltIn σ} (hc : ls[i]? = some c) (hd : ss[j]? = some d) (hin : Tree.InStep Primitive.Akin Eq Eq c d) (w : σ) :
    ∃ c' d' w', c.exit w = (c', w') ∧ d.exit w = (d', w') ∧ Copies body n (ls.set i c') (ss.set j d') := by
  have hworld : (d.exit w).2 = (c.exit w).2 := (BuiltIn.lockstep.exit hin (rfl : w = w)).2.symm
  have hblank := Tree.blank_exit (Primitive.blank_lasting (σ := σ))
  exact ⟨_, _, _, rfl, Prod.ext rfl hworld, h.set hc (hblank c w) hd (hblank d w)⟩

end Copies

/-- What the tick that completes the sequence does, and what the loop does beyond it: it attempts to enter its first block again. -/
structure WrapsAround (first : BuiltIn σ) (s l : Outcome × BuiltIn σ × σ) : Prop where
  answer : s.1 = .ok ()
  complete : Tree.isComplete s.2.1 s.2.2 = true
  /-- The attempt is made in the world in which the sequence completed. -/
  again : ∃ (c : BuiltIn σ) (cs : List (BuiltIn σ)), c.SameBlocks first ∧ l = ((c.enter s.2.2).1,
    .loop .forever ((c.enter s.2.2).2.1 :: cs) 0 false (c.enter s.2.2).1.isOk, (c.enter s.2.2).2.2)
  /-- The block was used in every pass, and still the attempt ends as the first one would. -/
  outcome : l.1 = (first.enter s.2.2).1
  world : l.2.2 = (first.enter s.2.2).2.2

namespace Unrolled

variable {body : List (BuiltIn σ)} {n : Nat} {l s : BuiltIn σ}

/-- While the sequence is being unrolled it is not complete. -/
theorem isComplete_eq (h : Unrolled body n l s) (w : σ) : s.isComplete w = false := by
  cases h with
  | mk _ hj _ => exact Tree.isComplete_composite .once hj _ w

/-- After the last child of the last copy, the loop comes to its first block and the sequence to its end. -/
theorem wraps {ls ss : List (BuiltIn σ)} (h : Copies body n ls ss) {first : BuiltIn σ} (hfirst : body[0]? = some first.blank)
    (w : σ) {j : Nat} (hj : ss.length ≤ j) : WrapsAround first (Tree.attempt .once ss j w) (Tree.attempt .forever ls 0 w) := by
  rw [Tree.attempt_of_length_le .once hj]
  cases ls with
  | nil =>
    rw [← h.loop] at hfirst
    nomatch hfirst
  | cons c cs =>
    have hblank : c.blank = first.blank := by
      rw [← h.loop] at hfirst
      simpa using hfirst
    have hsame : c.SameBlocks first := BuiltIn.sameBlocks_of_blank hblank
    obtain ⟨hanswer, -, hworld⟩ := BuiltIn.lockstep.enter hsame (rfl : w = w)
    exact {
      answer := rfl
      complete := Tree.isComplete_sequence.mpr hj
      again := ⟨c, cs, hsame, Tree.attempt_of_getElem? .forever rfl w⟩
      outcome := hanswer
      world := hworld }

/-- Once the block under the cursor is exited, both come to the next one, or the sequence comes to its end. -/
theorem next {ls ss : List (BuiltIn σ)} (h : Copies body n ls ss) {first : BuiltIn σ} (hfirst : body[0]? = some first.blank)
    {j : Nat} (hj : j < ss.length) (w : σ) :
    (∃ r l s w', Tree.attempt .forever ls (Course.forever.next ls.length (j % body.length)) w = (r, l, w') ∧
      Tree.attempt .once ss (j + 1) w = (r, s, w') ∧ Unrolled body n l s) ∨
    WrapsAround first (Tree.attempt .once ss (j + 1) w)
      (Tree.attempt .forever ls (Course.forever.next ls.length (j % body.length)) w) := by
  have hbody : 0 < body.length := (List.getElem?_eq_some_iff.mp hfirst).1
  rw [h.length_loop, Course.next_mod hbody]
  rcases Nat.lt_or_ge (j + 1) ss.length with hlt | hend
  · exact Or.inl (h.attempt hlt w)
  · have hlast : j + 1 = n * body.length := (Nat.le_antisymm hj hend).trans h.length_sequence
    have hmod : (j + 1) % body.length = 0 := by rw [hlast, Nat.mul_mod_left]
    rw [hmod]
    exact Or.inr (wraps h hfirst w hend)

/-- A tick of the loop is one of the sequence until the sequence is complete. -/
theorem run (h : Unrolled body n l s) {first : BuiltIn σ} (hfirst : body[0]? = some first.blank) (dt : Float) (w : σ) :
    (∃ r l' s' w', l.run dt w = (r, l', w') ∧ s.run dt w = (r, s', w') ∧ Unrolled body n l' s') ∨
      WrapsAround first (s.run dt w) (l.run dt w) := by
  cases h with
  | @mk ls ss j e hcopies hj hway =>
    cases e with
    | false =>
      obtain ⟨c, -, hc, -⟩ := hcopies.getElem? hj
      rw [Tree.run_composite_retry (List.getElem?_eq_some_iff.mp hc).1, Tree.run_composite_retry hj]
      exact Or.inl (hcopies.attempt hj w)
    | true =>
      obtain ⟨c, d, r, c', d', v, hc, hd, hl, hs, hin, hcopies'⟩ := hcopies.step (hway rfl) dt w
      have hc' : (ls.set (j % body.length) c')[j % body.length]? = some c' :=
        List.getElem?_set_self (List.getElem?_eq_some_iff.mp hc).1
      have hd' : (ss.set j d')[j]? = some d' := List.getElem?_set_self hj
      have hj' : j < (ss.set j d').length := by simpa using hj
      match r with
      | .error err =>
        rw [Tree.run_composite_error hc hl, Tree.run_composite_error hd hs]
        exact Or.inl ⟨_, _, _, _, rfl, rfl, .mk hcopies' hj' fun _ => ⟨c', d', hc', hd', hin⟩⟩
      | .ok () =>
        have hdone : c'.isComplete v = d'.isComplete v := BuiltIn.lockstep.isComplete hin rfl
        cases hopen : c'.isComplete v with
        | false =>
          rw [Tree.run_composite_busy hc hl hopen, Tree.run_composite_busy hd hs (hdone ▸ hopen)]
          exact Or.inl ⟨_, _, _, _, rfl, rfl, .mk hcopies' hj' fun _ => ⟨c', d', hc', hd', hin⟩⟩
        | true =>
          -- The block is exited in the same tick, and what is left in it stays with the loop only.
          obtain ⟨c'', d'', v', hexitl, hexits, hcopies''⟩ := hcopies'.exit hc' hd' hin v
          rw [List.set_set, List.set_set] at hcopies''
          have hnext := next hcopies'' hfirst (by simpa using hj) v'
          rw [List.length_set] at hnext
          rwa [Tree.run_composite_next hc hl hopen, Tree.run_composite_next hd hs (hdone ▸ hopen), hexitl, hexits]

/-- Loop and sequence are entered alike, whatever was left in them. -/
theorem enter {ls ss : List (BuiltIn σ)} (h : Copies body n ls ss) (hss : 0 < ss.length) (w : σ) :
    ∃ r l' s' w', Tree.attempt .forever ls 0 w = (r, l', w') ∧ Tree.attempt .once ss 0 w = (r, s', w') ∧ Unrolled body n l' s' := by
  have hattempt := h.attempt hss w
  rwa [Nat.zero_mod] at hattempt

/-- Loop and sequence are exited alike. -/
theorem exit (h : Unrolled body n l s) (w : σ) :
    ∃ l' s' w', l.exit w = (l', w') ∧ s.exit w = (s', w') ∧ Unrolled body n l' s' := by
  cases h with
  | @mk ls ss j e hcopies hj hway =>
    cases e with
    | false =>
      rw [Tree.exit_composite_idle, Tree.exit_composite_idle]
      exact ⟨_, _, _, rfl, rfl, .mk hcopies hj nofun⟩
    | true =>
      obtain ⟨c, d, hc, hd, hin⟩ := hway rfl
      obtain ⟨c', d', w', hl, hs, hcopies'⟩ := hcopies.exit hc hd hin w
      rw [Tree.exit_composite .forever hc, Tree.exit_composite .once hd, hl, hs]
      exact ⟨_, _, _, rfl, rfl, .mk hcopies' (by simpa using hj) nofun⟩

/-- Any call on the loop is one on the sequence, as long as it does not complete the sequence. -/
theorem make (h : Unrolled body n l s) {first : BuiltIn σ} (hfirst : body[0]? = some first.blank) (call : Call σ) (w : σ)
    (hopen : Tree.isComplete (call.make s w).2.1 (call.make s w).2.2 = false) :
    ∃ r l' s' w', call.make l w = (r, l', w') ∧ call.make s w = (r, s', w') ∧ Unrolled body n l' s' := by
  cases call with
  | enter =>
    cases h with
    | @mk ls ss j e hcopies hj hway =>
      obtain ⟨r, l', s', w', hl, hs, hunrolled⟩ := enter hcopies (Nat.zero_lt_of_lt hj) w
      rw [← Tree.enter_composite .forever ls (j % body.length) e w] at hl
      rw [← Tree.enter_composite .once ss j e w] at hs
      exact ⟨.outcome r, l', s', w', by simp only [Call.make, Block.enter, hl], by simp only [Call.make, Block.enter, hs],
        hunrolled⟩
  | run dt =>
    rcases h.run hfirst dt w with ⟨r, l', s', w', hl, hs, hunrolled⟩ | hwraps
    · exact ⟨.outcome r, l', s', w', by simp only [Call.make, Block.run, hl], by simp only [Call.make, Block.run, hs], hunrolled⟩
    · exact absurd hwraps.complete (by simpa [Call.make, Block.run] using hopen)
  | exit =>
    obtain ⟨l', s', w', hl, hs, hunrolled⟩ := h.exit w
    exact ⟨.silent, l', s', w', by simp only [Call.make, Block.exit, hl], by simp only [Call.make, Block.exit, hs], hunrolled⟩
  | isComplete =>
    refine ⟨.complete false, l, s, w, ?_, ?_, h⟩
    · cases h
      rfl
    · exact congrArg (fun b => (Answer.complete b, s, w)) (h.isComplete_eq w)
  | elsewhere change => exact ⟨.silent, l, s, change w, rfl, rfl, h⟩

end Unrolled

/-! ## A series of calls -/

/-- The block and the world after some calls. -/
def afterwards : List (Call σ) → BuiltIn σ → σ → BuiltIn σ × σ
  | [], b, w => (b, w)
  | call :: calls, b, w => afterwards calls (call.make b w).2.1 (call.make b w).2.2

/-- The block does not become complete during some calls. -/
def Unfinished : List (Call σ) → BuiltIn σ → σ → Prop
  | [], _, _ => True
  | call :: calls, b, w => Tree.isComplete (call.make b w).2.1 (call.make b w).2.2 = false ∧
    Unfinished calls (call.make b w).2.1 (call.make b w).2.2

/-- A series of calls on the loop is one on the sequence, as long as the sequence does not become complete. -/
theorem Unrolled.calls {body : List (BuiltIn σ)} {n : Nat} {l s : BuiltIn σ} (h : Unrolled body n l s) {first : BuiltIn σ}
    (hfirst : body[0]? = some first.blank) (calls : List (Call σ)) (w : σ) (hopen : Unfinished calls s w) :
    trace calls l w = trace calls s w ∧
      ∃ l' s' w', afterwards calls l w = (l', w') ∧ afterwards calls s w = (s', w') ∧ Unrolled body n l' s' := by
  induction calls generalizing l s w with
  | nil => exact ⟨rfl, l, s, w, rfl, rfl, h⟩
  | cons call calls ih =>
    obtain ⟨r, l', s', w', hl, hs, h'⟩ := h.make hfirst call w hopen.1
    have hopen' := hopen.2
    rw [hs] at hopen'
    obtain ⟨htrace, hafter⟩ := ih h' w' hopen'
    simp only [trace, afterwards, hl, hs]
    exact ⟨by rw [htrace], hafter⟩

/-- A loop that never stops is its body again and again. Entered in the same world as a sequence of some copies of its body, it is
entered alike. From then on, whatever calls are made, and whatever else happens in between, the two give the same answers, errors
among them, and leave the same worlds, until the sequence becomes complete. In the tick in which it does, the loop does the same and
then attempts to enter its first block again, which ends as it would have at first. -/
theorem forever_unrolled (first : BuiltIn σ) (rest : List (BuiltIn σ)) (n : Nat) (w : σ) :
    ∃ r l s w', (Tree.repeating .forever (first :: rest)).enter w = (r, l, w') ∧
      (Tree.ofList (List.replicate (n + 1) (first :: rest)).flatten).enter w = (r, s, w') ∧
      ∀ calls, Unfinished calls s w' → trace calls l w' = trace calls s w' ∧
        ∃ l' s' v, afterwards calls l w' = (l', v) ∧ afterwards calls s w' = (s', v) ∧
          ∀ dt, Tree.isComplete (s'.run dt v).2.1 (s'.run dt v).2.2 = true → WrapsAround first (s'.run dt v) (l'.run dt v) := by
  have hcopies : Copies ((first :: rest).map BuiltIn.blank) (n + 1) (first :: rest)
      (List.replicate (n + 1) (first :: rest)).flatten :=
    ⟨rfl, by simp⟩
  have hpos : 0 < (List.replicate (n + 1) (first :: rest)).flatten.length := by simp
  have hfirst : ((first :: rest).map BuiltIn.blank)[0]? = some first.blank := rfl
  obtain ⟨r, l, s, w', hl, hs, hunrolled⟩ := Unrolled.enter hcopies hpos w
  refine ⟨r, l, s, w', (Tree.enter_forever _ 0 false false w).trans hl, hs, fun calls hopen => ?_⟩
  obtain ⟨htrace, l', s', v, hafterl, hafters, hunrolled'⟩ := hunrolled.calls hfirst calls w' hopen
  refine ⟨htrace, l', s', v, hafterl, hafters, fun dt hcomplete => ?_⟩
  rcases hunrolled'.run hfirst dt v with ⟨r', l₁, s₁, v₁, -, hs₁, hunrolled₁⟩ | hwraps
  · rw [hs₁, hunrolled₁.isComplete_eq] at hcomplete
    nomatch hcomplete
  · exact hwraps

end

/-- A test of the lamp, and then a pause that can be entered while the lamp is on. -/
def pause : BuiltIn Bool := .ofList [.leaf (.condition (fun on => (on, on)) false), .leaf (.wait 0.0 0.0 0.0 lampClock)]

/-- The pause cannot go on to its wait while the lamp is off, and is stopped and started halfway through. -/
def pauseCalls : List (Call Bool) :=
  [.run 1.0, .elsewhere not, .run 1.0, .run 1.0, .isComplete, .exit, .run 1.0, .elsewhere not, .run 1.0]

/-- Three copies of the pause that do not come to an end, and two copies of a switch that do with the second tick. -/
theorem forever_unrolled_pause :
    (∃ r l s w', (Tree.repeating .forever [pause]).enter true = (r, l, w') ∧
      (Tree.ofList (List.replicate 3 [pause]).flatten).enter true = (r, s, w') ∧
      Unfinished pauseCalls s w' ∧ trace pauseCalls l w' = trace pauseCalls s w') ∧
    ∃ r l s w' l' s' v, (Tree.repeating .forever [.leaf (.perform not)]).enter true = (r, l, w') ∧
      (Tree.ofList (List.replicate 2 [.leaf (.perform not)]).flatten).enter true = (r, s, w') ∧
      afterwards [.run 1.0] l w' = (l', v) ∧ afterwards [.run 1.0] s w' = (s', v) ∧
      WrapsAround (.leaf (.perform not)) (s'.run 1.0 v) (l'.run 1.0 v) := by
  constructor
  · obtain ⟨r, l, s, w', hl, hs, hcalls⟩ := forever_unrolled pause [] 2 true
    cases hs
    have hopen : Unfinished pauseCalls ((Tree.ofList (List.replicate 3 [pause]).flatten).enter true).2.1
        ((Tree.ofList (List.replicate 3 [pause]).flatten).enter true).2.2 :=
      ⟨rfl, rfl, rfl, rfl, rfl, rfl, rfl, rfl, rfl, trivial⟩
    exact ⟨_, l, _, _, hl, rfl, hopen, (hcalls pauseCalls hopen).1⟩
  · obtain ⟨r, l, s, w', hl, hs, hcalls⟩ := forever_unrolled (.leaf (.perform not)) [] 1 true
    cases hs
    obtain ⟨-, l', s', v, hafterl, hafters, hwraps⟩ := hcalls [.run 1.0] ⟨rfl, trivial⟩
    have hafter := hafters
    cases hafter
    exact ⟨_, l, _, _, l', _, _, hl, rfl, hafterl, hafters, hwraps 1.0 rfl⟩

end BlockScript
