import BlockScript.Proofs.Block.Lifecycle
import BlockScript.Proofs.Block.Succession

/-!
# Sequences and loops take their children in order

`TakesInOrder` says of a kind of composite that every call that the block contract allows goes on along a trail of children, and that
the cursor keeps up with it. It is shown of sequences (`sequence_takesInOrder`) and of loops (`loop_takesInOrder`), which differ in
what comes after the last child. By induction on the calls, everything that an owner makes of a composite in one activation makes one
trail (`TakesInOrder.advanced`), so what is known of trails holds of sequences and loops (`children_in_order`).
-/

namespace BlockScript

/-! ## Asking whether to stop -/

/-- What is noted down when a loop asks whether to stop: an endless one has no test. -/
def LoopKind.asks {σ : Type v} : LoopKind σ → Bool → List Incident
  | forever, _ => []
  | _, stop => [.asked stop]

/-- What a loop asks of its test is no incident of a child. -/
theorem LoopKind.filter_asks {σ : Type v} (k : LoopKind σ) (stop : Bool) : (k.asks stop).filter (·.onChild) = [] := by
  cases k <;> rfl

/-- The test of a watched loop answers as it does unwatched and notes what it answers. -/
theorem LoopKind.shouldExit_watch_asks {σ : Type v} (k : LoopKind σ) (w : σ) (log : List Incident) :
    k.watch.shouldExit ⟨w, log⟩ = ((k.shouldExit w).1, ⟨(k.shouldExit w).2, log ++ k.asks (k.shouldExit w).1⟩) := by
  cases k with
  | forever => exact Prod.ext rfl (congrArg (Watch.mk w) (List.append_nil log).symm)
  | whileTrue test => exact shouldExit_watch (by simp) w log
  | untilTrue test => exact shouldExit_watch (by simp) w log

namespace Tree

variable {α : Type u} {σ : Type v} [Block α σ]

/-- A call goes on from a phase: what is noted down of it does, and where this ends the tree has come. -/
def Proceeds (next : Nat → Nat) (P : ChildPhase → Tree α σ → Prop) (p : ChildPhase) (call : OwnerCall) (t : Tree α σ) (w : σ) :
    Prop :=
  ∃ es p', Passage next p (es.filter (·.onChild)) p' ∧ Notes call t w es ∧ P p' (call.make t w).2.1

/-- A kind of composite whose calls take the children in order: `P` tells the composites of this kind that have come to a phase. -/
structure TakesInOrder (next : Nat → Nat) (P : ChildPhase → Tree α σ → Prop) : Prop where
  create : ∀ {p t}, P p t → ∀ w, P p (t.create w).1
  destroy : ∀ {p t}, P p t → ∀ w, P p (t.destroy w).1
  enter : ∀ {p t}, P p t → ∀ w, Proceeds next P (.due 0) .enter t w
  run : ∀ {p t}, P p t → ∀ dt w, Proceeds next P p (.run dt) t w
  exit : ∀ {p t}, P p t → ∀ w, ∃ i, (p = .due i ∧ Notes .exit t w [] ∨ p = .inside i ∧ Notes .exit t w [.left i]) ∧
    P (.due i) (t.exit w).1

/-- Nothing is noted down where a tree is created. -/
theorem notes_create (t : Tree α σ) (w : σ) : Notes .create t w [] := by
  cases t with
  | leaf b => rfl
  | sequence cs i e =>
    simp only [Notes, OwnerCall.make, Block.create, watch, create, createAll_eq]
    rw [inTurn_watchAll create fun _ _ _ => rfl]
  | loop k cs i s e =>
    simp only [Notes, OwnerCall.make, Block.create, watch, create, createAll_eq]
    rw [inTurn_watchAll create fun _ _ _ => rfl]

/-- Nothing is noted down where a tree is destroyed. -/
theorem notes_destroy (t : Tree α σ) (w : σ) : Notes .destroy t w [] := by
  cases t with
  | leaf b => rfl
  | sequence cs i e =>
    simp only [Notes, OwnerCall.make, Block.destroy, watch, destroy, destroyAll_eq]
    rw [inTurn_watchAll destroy fun _ _ _ => rfl]
  | loop k cs i s e =>
    simp only [Notes, OwnerCall.make, Block.destroy, watch, destroy, destroyAll_eq]
    rw [inTurn_watchAll destroy fun _ _ _ => rfl]

/-! ### Attempts -/

omit [Block α σ] in
theorem filter_tried (cs : List (Tree α σ)) (i : Nat) (r : Outcome) : (tried cs i r).filter (·.onChild) = tried cs i r := by
  unfold tried
  split <;> rfl

/-- What an attempt to enter a child comes to. -/
theorem attempt_part (cs : List (Tree α σ)) (i : Nat) (w : σ) :
    (entered (enterAt cs i w).1 (enterAt cs i w).2.1 i = false ∧ EntryPart (.due i) (tried cs i (enterAt cs i w).1) (.due i)) ∨
      (i < cs.length ∧ entered (enterAt cs i w).1 (enterAt cs i w).2.1 i = true ∧
        EntryPart (.due i) (tried cs i (enterAt cs i w).1) (.inside i)) := by
  rw [entered, length_enterAt]
  rcases Nat.lt_or_ge i cs.length with hi | hi
  · rw [tried, if_pos hi]
    rcases (enterAt cs i w).1 with e | ⟨⟩
    · exact .inl ⟨rfl, .refused i e⟩
    · exact .inr ⟨hi, by simpa [Except.isOk, Except.toBool] using hi, .entered i⟩
  · rw [tried, if_neg (by omega)]
    exact .inl ⟨by simp; omega, .none _⟩

/-! ### Sequences -/

/-- A sequence of `n` children that has come to a phase. -/
inductive SequenceAt (n : Nat) : ChildPhase → Tree α σ → Prop where
  | due {cs : List (Tree α σ)} {i : Nat} : cs.length = n → i ≤ n → SequenceAt n (.due i) (sequence cs i false)
  | inside {cs : List (Tree α σ)} {i : Nat} : cs.length = n → i < n → SequenceAt n (.inside i) (sequence cs i true)

section

variable {n : Nat} {p : ChildPhase} {t : Tree α σ}

/-- After an attempt to enter the child at the cursor. -/
theorem SequenceAt.attempted {cs : List (Tree α σ)} {i : Nat} (hn : cs.length = n) (hi : i ≤ n) (w : σ) :
    ∃ p', EntryPart (.due i) (tried cs i (enterAt cs i w).1) p' ∧
      SequenceAt n p' (sequence (enterAt cs i w).2.1 i (entered (enterAt cs i w).1 (enterAt cs i w).2.1 i)) := by
  have hlen : (enterAt cs i w).2.1.length = n := (length_enterAt cs i w).trans hn
  rcases attempt_part cs i w with ⟨hentered, hpart⟩ | ⟨hlt, hentered, hpart⟩
  · rw [hentered]
    exact ⟨_, hpart, .due hlen hi⟩
  · rw [hentered]
    exact ⟨_, hpart, .inside hlen (by omega)⟩

/-- Entering a sequence tries its first child. -/
theorem sequence_enter (ht : SequenceAt n p t) (w : σ) : Proceeds (· + 1) (SequenceAt n) (.due 0) .enter t w := by
  obtain ⟨cs, i, e, rfl, hn⟩ : ∃ cs i e, t = sequence cs i e ∧ cs.length = n := by
    cases ht with
    | due hn _ => exact ⟨_, _, _, rfl, hn⟩
    | inside hn _ => exact ⟨_, _, _, rfl, hn⟩
  obtain ⟨p', hpart, hp'⟩ := SequenceAt.attempted hn (Nat.zero_le n) w
  refine ⟨tried cs 0 (enterAt cs 0 w).1, p', ?_, ?_, hp'⟩
  · rw [filter_tried]
    exact .attempt hpart
  · have henter : ∀ v : Watch σ, enter (watch (sequence cs i e)) v = ((enterAt (watchAll cs) 0 v).1,
        sequence (enterAt (watchAll cs) 0 v).2.1 0 (entered (enterAt (watchAll cs) 0 v).1 (enterAt (watchAll cs) 0 v).2.1 0),
        (enterAt (watchAll cs) 0 v).2.2) := fun _ => rfl
    simp only [Notes, OwnerCall.make, Block.enter]
    rw [henter, enterAt_watchAll, entered_watchAll]
    rfl

/-- Running a sequence runs the child at its cursor, and goes on to the next when this one is done. -/
theorem sequence_run (ht : SequenceAt n p t) (dt : Float) (w : σ) : Proceeds (· + 1) (SequenceAt n) p (.run dt) t w := by
  simp only [Proceeds, Notes, OwnerCall.make, Block.run]
  cases ht with
  | @due cs i hn hi =>
    rw [watch]
    rcases Nat.lt_or_ge i cs.length with hlt | hge
    · obtain ⟨p', hpart, hp'⟩ := SequenceAt.attempted hn hi w
      rw [run_sequence_retry hlt, run_sequence_retry (by rwa [length_watchAll]), enterAt_watchAll, entered_watchAll]
      refine ⟨_, p', ?_, rfl, hp'⟩
      rw [List.nil_append, filter_tried]
      exact .attempt hpart
    · rw [run_sequence_done hge, run_sequence_done (by rwa [length_watchAll])]
      exact ⟨[], _, .idle _, rfl, .due hn hi⟩
  | @inside cs i hn hi =>
    have hlt : i < cs.length := by omega
    have hlt' : i < (watchAll cs).length := by rwa [length_watchAll]
    obtain ⟨step, hstep, hwatch⟩ := runAt_watchAll dt cs hlt w []
    rw [watch]
    rcases hr : runAt dt cs i w with ⟨r, ds, w'⟩
    rw [hr] at hstep hwatch
    have hlen : ds.length = n := (length_of_runAt hr).trans hn
    rw [List.nil_append] at hwatch
    cases hstep with
    | failed err complete =>
      rw [run_sequence_error hlt hr, run_sequence_error hlt' hwatch]
      exact ⟨_, _, .step (.unfinished ⟨_, _, rfl, by simp⟩), rfl, .inside hlen hi⟩
    | busy =>
      rw [run_sequence_busy hlt hr, run_sequence_busy hlt' hwatch]
      exact ⟨_, _, .step (.unfinished ⟨_, _, rfl, by simp⟩), rfl, .inside hlen hi⟩
    | done =>
      obtain ⟨p', hpart, hp'⟩ := SequenceAt.attempted hlen hi w'
      rw [run_sequence_next hlt hr, run_sequence_next hlt' hwatch, enterAt_watchAll, entered_watchAll]
      refine ⟨_, p', ?_, rfl, hp'⟩
      rw [List.filter_append, filter_tried]
      exact .mk (.finished i) hpart

/-- Exiting a sequence exits the child that is entered, if there is one. -/
theorem sequence_exit (ht : SequenceAt n p t) (w : σ) :
    ∃ i, (p = .due i ∧ Notes .exit t w [] ∨ p = .inside i ∧ Notes .exit t w [.left i]) ∧ SequenceAt n (.due i) (t.exit w).1 := by
  cases ht with
  | @due cs i hn hi => exact ⟨i, .inl ⟨rfl, rfl⟩, .due hn hi⟩
  | @inside cs i hn hi =>
    have hexit : exit (sequence cs i true) w = (sequence (exitAt cs i w).1 i false, (exitAt cs i w).2) := rfl
    refine ⟨i, .inr ⟨rfl, ?_⟩, ?_⟩
    · have hwatch : ∀ v : Watch σ, exit (watch (sequence cs i true)) v =
          (sequence (exitAt (watchAll cs) i v).1 i false, (exitAt (watchAll cs) i v).2) := fun _ => rfl
      simp only [Notes, OwnerCall.make, Block.exit]
      rw [hwatch, hexit, exitAt_watchAll cs (hn ▸ hi)]
      rfl
    · rw [hexit]
      exact .due ((length_exitAt cs i w).trans hn) (Nat.le_of_lt hi)

omit [Block α σ] in
/-- A call on all children in turn changes nothing of where a sequence has come to. -/
theorem SequenceAt.inTurn (ht : SequenceAt n p t) (call : Tree α σ → σ → Tree α σ × σ) (w : σ) :
    ∃ cs i e, t = sequence cs i e ∧ SequenceAt n p (sequence (inTurn call cs w).1 i e) := by
  cases ht with
  | due hn hi => exact ⟨_, _, _, rfl, .due ((length_inTurn call _ w).trans hn) hi⟩
  | inside hn hi => exact ⟨_, _, _, rfl, .inside ((length_inTurn call _ w).trans hn) hi⟩

/-- A sequence takes its children in order. -/
theorem sequence_takesInOrder (n : Nat) : TakesInOrder (· + 1) (SequenceAt (α := α) (σ := σ) n) where
  create {p t} ht w := by
    obtain ⟨cs, i, e, rfl, ht'⟩ := ht.inTurn create w
    rwa [create, createAll_eq]
  destroy {p t} ht w := by
    obtain ⟨cs, i, e, rfl, ht'⟩ := ht.inTurn destroy w
    rwa [destroy, destroyAll_eq]
  enter := sequence_enter
  run := sequence_run
  exit := sequence_exit

/-! ### Loops -/

/-- A loop of `n` children that has come to a phase. Where it was told to stop after the last child, the first one would be next. -/
inductive RoundAt (k : LoopKind σ) (n : Nat) : ChildPhase → Tree α σ → Prop where
  | due {cs : List (Tree α σ)} {i : Nat} (s : Bool) : cs.length = n → (0 < n → i < n) → RoundAt k n (.due i) (loop k cs i s false)
  | inside {cs : List (Tree α σ)} {i : Nat} (s : Bool) : cs.length = n → i < n → RoundAt k n (.inside i) (loop k cs i s true)
  | stopped {cs : List (Tree α σ)} : cs.length = n → 0 < n → RoundAt k n (.due 0) (loop k cs n true false)

/-- The child after one of `n` children, if the first one follows the last. -/
def around (n i : Nat) : Nat := (i + 1) % n

theorem around_of_lt {n i : Nat} (h : i + 1 < n) : around n i = i + 1 := Nat.mod_eq_of_lt h

theorem around_of_eq {n i : Nat} (h : i + 1 = n) : around n i = 0 := by
  rw [around, h, Nat.mod_self]

variable {k : LoopKind σ}

/-- After an attempt to enter the child at the cursor. -/
theorem RoundAt.attempted {cs : List (Tree α σ)} {i : Nat} (hn : cs.length = n) (hi : 0 < n → i < n) (w : σ) :
    ∃ p', EntryPart (.due i) (tried cs i (enterAt cs i w).1) p' ∧
      RoundAt k n p' (loop k (enterAt cs i w).2.1 i false (entered (enterAt cs i w).1 (enterAt cs i w).2.1 i)) := by
  have hlen : (enterAt cs i w).2.1.length = n := (length_enterAt cs i w).trans hn
  rcases attempt_part cs i w with ⟨hentered, hpart⟩ | ⟨hlt, hentered, hpart⟩
  · rw [hentered]
    exact ⟨_, hpart, .due false hlen hi⟩
  · rw [hentered]
    exact ⟨_, hpart, .inside false hlen (by omega)⟩

/-- Entering a loop tries its first child, unless its test stops it. -/
theorem loop_enter (ht : RoundAt k n p t) (w : σ) : Proceeds (around n) (RoundAt k n) (.due 0) .enter t w := by
  obtain ⟨cs, i, s, e, rfl, hn⟩ : ∃ cs i s e, t = loop k cs i s e ∧ cs.length = n := by
    cases ht with
    | due s hn _ => exact ⟨_, _, _, _, rfl, hn⟩
    | inside s hn _ => exact ⟨_, _, _, _, rfl, hn⟩
    | stopped hn _ => exact ⟨_, _, _, _, rfl, hn⟩
  have hstop := k.shouldExit_watch_asks w []
  simp only [Proceeds, Notes, OwnerCall.make, Block.enter, watch]
  rcases hkw : k.shouldExit w with ⟨_ | _, w'⟩ <;> rw [hkw] at hstop
  · obtain ⟨p', hpart, hp'⟩ := RoundAt.attempted (k := k) hn id w'
    rw [enter_loop_start hstop, enter_loop_start hkw, enterAt_watchAll, entered_watchAll]
    refine ⟨_, p', ?_, rfl, hp'⟩
    rw [List.nil_append, List.filter_append, k.filter_asks, filter_tried]
    exact .attempt hpart
  · rw [enter_loop_stop hstop, enter_loop_stop hkw]
    refine ⟨_, .due 0, ?_, rfl, .due true hn id⟩
    rw [List.nil_append, k.filter_asks]
    exact .idle _

/-- A tick of a loop in which nothing happens to a child. -/
theorem loop_run_quiet (ht : RoundAt k n p t) (dt : Float) (w : σ) (h : t.isComplete w = true ∨ n = 0 ∨ (k.shouldExit w).1 = true) :
    ∃ es, es.filter (·.onChild) = [] ∧ Notes (.run dt) t w es ∧ RoundAt k n p (t.run dt w).2.1 := by
  obtain ⟨cs, i, s, e, rfl, hn⟩ : ∃ cs i s e, t = loop k cs i s e ∧ cs.length = n := by
    cases ht with
    | due s hn _ => exact ⟨_, _, _, _, rfl, hn⟩
    | inside s hn _ => exact ⟨_, _, _, _, rfl, hn⟩
    | stopped hn _ => exact ⟨_, _, _, _, rfl, hn⟩
  have hs : isComplete (loop k cs i s e) w = s := rfl
  rw [hs] at h
  simp only [Notes, OwnerCall.make, Block.run, watch]
  by_cases hidle : s = true ∨ cs = []
  · have hidle' : s = true ∨ watchAll cs = [] := hidle.imp id fun hcs => by rw [hcs]; rfl
    rw [run_loop_idle hidle, run_loop_idle hidle']
    exact ⟨[], rfl, rfl, ht⟩
  · obtain ⟨hgoes, hcs⟩ := not_or.mp hidle
    obtain rfl : s = false := by simpa using hgoes
    have hpos : n ≠ 0 := fun hzero => hcs (List.length_eq_zero_iff.mp (hn.trans hzero))
    have htold : (k.shouldExit w).1 = true := by simpa [hpos] using h
    have hstop := k.shouldExit_watch_asks w []
    rcases hkw : k.shouldExit w with ⟨b, w'⟩
    obtain rfl : b = true := by rw [hkw] at htold; exact htold
    rw [hkw] at hstop
    rw [run_loop_stop hcs hkw, run_loop_stop (watchAll_ne_nil hcs) hstop]
    refine ⟨_, (k.filter_asks true), rfl, ?_⟩
    cases ht with
    | due _ hn hi => exact .due true hn hi
    | inside _ hn hi => exact .inside true hn hi

/-- A tick of a loop that tries again to enter the child at hand. -/
theorem loop_run_retried {cs : List (Tree α σ)} {i : Nat} (hn : cs.length = n) (hi : i < n) (dt : Float) {w w' : σ}
    (hgoes : k.shouldExit w = (false, w')) : Proceeds (around n) (RoundAt k n) (.due i) (.run dt) (loop k cs i false false) w := by
  have hcs : cs ≠ [] := List.ne_nil_of_length_pos (by omega)
  have hgoes' := k.shouldExit_watch_asks w []
  rw [hgoes] at hgoes'
  obtain ⟨p', hpart, hp'⟩ := RoundAt.attempted (k := k) hn (fun _ => hi) w'
  simp only [Proceeds, Notes, OwnerCall.make, Block.run]
  rw [watch, run_loop_retry hcs hgoes, run_loop_retry (watchAll_ne_nil hcs) hgoes', enterAt_watchAll, entered_watchAll]
  refine ⟨_, p', ?_, rfl, hp'⟩
  rw [List.nil_append, List.filter_append, k.filter_asks, filter_tried]
  exact .attempt hpart

/-- What happens to the children in a tick that finishes one of them: it is stepped and left, and then another one may be tried. -/
theorem filter_pass (k : LoopKind σ) (i : Nat) {asked : List Incident} (hasked : asked.filter (·.onChild) = []) (tries : List Incident) :
    List.filter (·.onChild) (k.asks false ++ [.stepped i (.ok ()) true, .left i] ++ asked ++ tries) =
      [.stepped i (.ok ()) true, .left i] ++ tries.filter (·.onChild) := by
  simp only [List.filter_append, k.filter_asks, hasked, List.nil_append, List.append_nil]
  rfl

/-- A tick of a loop in which the child at hand finishes. -/
theorem loop_run_finished {cs ds : List (Tree α σ)} {i : Nat} (hn : cs.length = n) (hi : i < n) {dt : Float} {w w' w'' : σ}
    (hgoes : k.shouldExit w = (false, w')) (hr : runAt dt cs i w' = (.ok true, ds, w''))
    (hwatch : runAt dt (watchAll cs) i ⟨w', k.asks false⟩ =
      (.ok true, watchAll ds, ⟨w'', k.asks false ++ [.stepped i (.ok ()) true, .left i]⟩)) :
    Proceeds (around n) (RoundAt k n) (.inside i) (.run dt) (loop k cs i false true) w := by
  have hcs : cs ≠ [] := List.ne_nil_of_length_pos (by omega)
  have hcs' := watchAll_ne_nil hcs
  have hgoes' := k.shouldExit_watch_asks w []
  rw [hgoes, List.nil_append] at hgoes'
  have hlen : ds.length = n := (length_of_runAt hr).trans hn
  have hlen' : (watchAll ds).length = n := (length_watchAll ds).trans hlen
  simp only [Proceeds, Notes, OwnerCall.make, Block.run]
  rw [watch]
  rcases Nat.lt_or_ge (i + 1) n with hnext | hlast
  · obtain ⟨p', hpart, hp'⟩ := RoundAt.attempted (k := k) hlen (fun _ => hnext) w''
    rw [run_loop_next hcs hgoes hr (hlen ▸ hnext), run_loop_next hcs' hgoes' hwatch (hlen' ▸ hnext), enterAt_watchAll,
      entered_watchAll]
    refine ⟨_, p', ?_, rfl, hp'⟩
    have hfilter := filter_pass k i List.filter_nil (tried ds (i + 1) (enterAt ds (i + 1) w'').1)
    rw [List.append_nil, filter_tried] at hfilter
    rw [hfilter]
    exact .mk (around_of_lt hnext ▸ .finished i) hpart
  · have hturn : around n i = 0 := around_of_eq (by omega)
    have hstop' := k.shouldExit_watch_asks w'' (k.asks false ++ [.stepped i (.ok ()) true, .left i])
    rcases hstop : k.shouldExit w'' with ⟨_ | _, w₃⟩ <;> rw [hstop] at hstop'
    · obtain ⟨p', hpart, hp'⟩ := RoundAt.attempted (k := k) hlen id w₃
      rw [run_loop_wrap hcs hgoes hr (hlen ▸ hlast) hstop, run_loop_wrap hcs' hgoes' hwatch (hlen' ▸ hlast) hstop',
        enterAt_watchAll, entered_watchAll]
      refine ⟨_, p', ?_, rfl, hp'⟩
      rw [filter_pass k i (k.filter_asks false), filter_tried]
      exact .mk (hturn ▸ .finished i) hpart
    · rw [run_loop_finish hcs hgoes hr (hlen ▸ hlast) hstop, run_loop_finish hcs' hgoes' hwatch (hlen' ▸ hlast) hstop']
      obtain rfl : i + 1 = n := by omega
      refine ⟨_, _, ?_, rfl, .stopped hlen (by omega)⟩
      have hfilter := filter_pass k i (k.filter_asks true) []
      rw [List.append_nil] at hfilter
      rw [hfilter]
      exact .step (hturn ▸ .finished i)

/-- A tick of a loop that steps the child at hand. -/
theorem loop_run_stepped {cs : List (Tree α σ)} {i : Nat} (hn : cs.length = n) (hi : i < n) (dt : Float) {w w' : σ}
    (hgoes : k.shouldExit w = (false, w')) : Proceeds (around n) (RoundAt k n) (.inside i) (.run dt) (loop k cs i false true) w := by
  have hcs : cs ≠ [] := List.ne_nil_of_length_pos (by omega)
  have hcs' := watchAll_ne_nil hcs
  have hgoes' := k.shouldExit_watch_asks w []
  rw [hgoes, List.nil_append] at hgoes'
  obtain ⟨step, hstep, hwatch⟩ := runAt_watchAll dt cs (hn ▸ hi) w' (k.asks false)
  rcases hr : runAt dt cs i w' with ⟨r, ds, w''⟩
  rw [hr] at hstep hwatch
  have hlen : ds.length = n := (length_of_runAt hr).trans hn
  cases hstep with
  | failed err complete =>
    simp only [Proceeds, Notes, OwnerCall.make, Block.run]
    rw [watch, run_loop_error hcs hgoes hr, run_loop_error hcs' hgoes' hwatch]
    refine ⟨_, _, ?_, rfl, .inside false hlen hi⟩
    rw [List.filter_append, k.filter_asks, List.nil_append]
    exact .step (.unfinished ⟨_, _, rfl, by simp⟩)
  | busy =>
    simp only [Proceeds, Notes, OwnerCall.make, Block.run]
    rw [watch, run_loop_busy hcs hgoes hr, run_loop_busy hcs' hgoes' hwatch]
    refine ⟨_, _, ?_, rfl, .inside false hlen hi⟩
    rw [List.filter_append, k.filter_asks, List.nil_append]
    exact .step (.unfinished ⟨_, _, rfl, by simp⟩)
  | done => exact loop_run_finished hn hi hgoes hr hwatch

/-- Running a loop runs the child at its cursor, and goes on around its body when this one is done. -/
theorem loop_run (ht : RoundAt k n p t) (dt : Float) (w : σ) : Proceeds (around n) (RoundAt k n) p (.run dt) t w := by
  by_cases hquiet : t.isComplete w = true ∨ n = 0 ∨ (k.shouldExit w).1 = true
  · obtain ⟨es, hes, hnotes, hp⟩ := loop_run_quiet ht dt w hquiet
    exact ⟨es, p, hes ▸ .idle _, hnotes, hp⟩
  obtain ⟨hopen, hpos, htold⟩ : t.isComplete w = false ∧ n ≠ 0 ∧ (k.shouldExit w).1 = false := by simpa using hquiet
  have hgoes : k.shouldExit w = (false, (k.shouldExit w).2) := Prod.ext htold rfl
  cases ht with
  | stopped => exact absurd hopen (by simp [isComplete])
  | @due cs i s hn hi =>
    obtain rfl : s = false := hopen
    exact loop_run_retried hn (hi (Nat.pos_of_ne_zero hpos)) dt hgoes
  | @inside cs i s hn hi =>
    obtain rfl : s = false := hopen
    exact loop_run_stepped hn hi dt hgoes

/-- Exiting a loop exits the child that is entered, if there is one. -/
theorem loop_exit (ht : RoundAt k n p t) (w : σ) :
    ∃ i, (p = .due i ∧ Notes .exit t w [] ∨ p = .inside i ∧ Notes .exit t w [.left i]) ∧ RoundAt k n (.due i) (t.exit w).1 := by
  cases ht with
  | @due cs i s hn hi => exact ⟨i, .inl ⟨rfl, rfl⟩, .due s hn hi⟩
  | stopped hn hpos => exact ⟨0, .inl ⟨rfl, rfl⟩, .stopped hn hpos⟩
  | @inside cs i s hn hi =>
    have hexit : exit (loop k cs i s true) w = (loop k (exitAt cs i w).1 i s false, (exitAt cs i w).2) := rfl
    refine ⟨i, .inr ⟨rfl, ?_⟩, ?_⟩
    · have hwatch : ∀ v : Watch σ, exit (watch (loop k cs i s true)) v =
          (loop k.watch (exitAt (watchAll cs) i v).1 i s false, (exitAt (watchAll cs) i v).2) := fun _ => rfl
      simp only [Notes, OwnerCall.make, Block.exit]
      rw [hwatch, hexit, exitAt_watchAll cs (hn ▸ hi)]
      rfl
    · rw [hexit]
      exact .due s ((length_exitAt cs i w).trans hn) fun _ => hi

omit [Block α σ] in
/-- A call on all children in turn changes nothing of where a loop has come to. -/
theorem RoundAt.inTurn (ht : RoundAt k n p t) (call : Tree α σ → σ → Tree α σ × σ) (w : σ) :
    ∃ cs i s e, t = loop k cs i s e ∧ RoundAt k n p (loop k (inTurn call cs w).1 i s e) := by
  cases ht with
  | due s hn hi => exact ⟨_, _, _, _, rfl, .due s ((length_inTurn call _ w).trans hn) hi⟩
  | inside s hn hi => exact ⟨_, _, _, _, rfl, .inside s ((length_inTurn call _ w).trans hn) hi⟩
  | stopped hn hpos => exact ⟨_, _, _, _, rfl, .stopped ((length_inTurn call _ w).trans hn) hpos⟩

/-- A loop takes its children in order, over and over. -/
theorem loop_takesInOrder (k : LoopKind σ) (n : Nat) : TakesInOrder (around n) (RoundAt (α := α) k n) where
  create {p t} ht w := by
    obtain ⟨cs, i, s, e, rfl, ht'⟩ := ht.inTurn create w
    rwa [create, createAll_eq]
  destroy {p t} ht w := by
    obtain ⟨cs, i, s, e, rfl, ht'⟩ := ht.inTurn destroy w
    rwa [destroy, destroyAll_eq]
  enter := loop_enter
  run := loop_run
  exit := loop_exit

end

end Tree

/-! ## Histories -/

section

variable {α : Type u} {σ : Type v} [Block α σ] {next : Nat → Nat} {P : ChildPhase → Tree α σ → Prop} {t u : Tree α σ}
  {past : List LoopCall} {active : Bool} {q : ChildPhase}

/-- Watching a composite that takes its children in order changes nothing. -/
theorem Tree.TakesInOrder.notes (h : TakesInOrder next P) (hu : P q u) (call : OwnerCall) (w : σ) :
    Notes call u w (LoopCall.of call u w).incidents := by
  suffices hnotes : ∃ es, Notes call u w es by
    obtain ⟨es, hes⟩ := hnotes
    rwa [LoopCall.incidents_of hes]
  cases call with
  | create => exact ⟨[], notes_create u w⟩
  | destroy => exact ⟨[], notes_destroy u w⟩
  | enter =>
    obtain ⟨es, -, -, hes, -⟩ := h.enter hu w
    exact ⟨es, hes⟩
  | run dt =>
    obtain ⟨es, -, -, hes, -⟩ := h.run hu dt w
    exact ⟨es, hes⟩
  | exit =>
    obtain ⟨i, ⟨-, hes⟩ | ⟨-, hes⟩, -⟩ := h.exit hu w
    · exact ⟨_, hes⟩
    · exact ⟨_, hes⟩

/-- A composite that takes its children in order goes on to do so, whatever its owner calls. -/
theorem Tree.TakesInOrder.kept (h : TakesInOrder next P) (hu : P q u) (call : OwnerCall) (w : σ) : ∃ q', P q' (call.make u w).2.1 := by
  cases call with
  | create => exact ⟨q, h.create hu w⟩
  | destroy => exact ⟨q, h.destroy hu w⟩
  | enter =>
    obtain ⟨_, q', -, -, hq'⟩ := h.enter hu w
    exact ⟨q', hq'⟩
  | run dt =>
    obtain ⟨_, q', -, -, hq'⟩ := h.run hu dt w
    exact ⟨q', hq'⟩
  | exit =>
    obtain ⟨i, -, hq'⟩ := h.exit hu w
    exact ⟨.due i, hq'⟩

/-- The calls of an activation make a trail, and the composite has come as far as it. While it is not active, the child that was
abandoned, if one was, counts as due. -/
structure Advanced (next : Nat → Nat) (P : ChildPhase → Tree α σ → Prop) (u : Tree α σ) (past : List LoopCall) (active : Bool)
    (p q : ChildPhase) : Prop where
  trail : ChildTrail next (childLog past) p
  came : P q u
  upcoming : p.upcoming next = q.upcoming next
  same : active = true → p = q
  later : ∀ x ∈ past, AttemptLast (x.incidents.filter (·.onChild))

namespace Advanced

variable {p : ChildPhase} {v : Tree α σ} {x : LoopCall}

omit [Block α σ]

/-- After a call that does not enter. -/
theorem followed {p' q' : ChildPhase} {active' : Bool} (h : Advanced next P u past active p q)
    (htrail : ChildTrail next (childLog past ++ x.incidents.filter (·.onChild)) p')
    (hlast : AttemptLast (x.incidents.filter (·.onChild))) (hv : P q' v) (hup : p'.upcoming next = q'.upcoming next)
    (hsame : active' = true → p' = q') : Advanced next P v (past ++ [x]) active' p' q' where
  trail := by rwa [childLog_append]
  came := hv
  upcoming := hup
  same := hsame
  later := List.forall_mem_append.mpr ⟨h.later, List.forall_mem_singleton.mpr hlast⟩

/-- After a call in which nothing happens to a child, and which leaves the composite inactive. -/
theorem quiet (h : Advanced next P u past active p q) (hx : x.incidents = []) (hv : P q v) :
    Advanced next P v (past ++ [x]) false p q := by
  refine h.followed ?_ ?_ hv h.upcoming fun h => absurd h Bool.false_ne_true
  · rw [hx, List.filter_nil, List.append_nil]
    exact h.trail
  · rw [hx]
    exact attemptLast_nil

end Advanced

/-- What each call does with the children adds up over a history of calls. -/
theorem Tree.TakesInOrder.advanced (h : TakesInOrder next P) (ht : P (.due 0) t) (hist : LoopHistory t u past active) :
    ∃ p q, Advanced next P u past active p q := by
  induction hist with
  | fresh => exact ⟨.due 0, .due 0, .nil, ht, rfl, fun h => absurd h Bool.false_ne_true, List.forall_mem_nil _⟩
  | @call u past active call w _ hallowed ih =>
    obtain ⟨p, q, had⟩ := ih
    cases call with
    | create => exact ⟨p, q, had.quiet (LoopCall.incidents_of (notes_create u w)) (h.create had.came w)⟩
    | destroy => exact ⟨p, q, had.quiet (LoopCall.incidents_of (notes_destroy u w)) (h.destroy had.came w)⟩
    | enter =>
      -- A new trail begins.
      obtain ⟨es, q', hpass, hnotes, hq'⟩ := h.enter had.came w
      obtain rfl := LoopCall.incidents_of hnotes
      have htrail := ChildTrail.nil.passage hpass
      refine ⟨q', q', ?_, hq', rfl, fun _ => rfl, List.forall_mem_singleton.mpr hpass.attemptLast⟩
      change ChildTrail next (childLog [LoopCall.of .enter u w]) q'
      rwa [childLog, List.flatMap_singleton]
    | run dt =>
      obtain ⟨es, q', hpass, hnotes, hq'⟩ := h.run had.came dt w
      obtain rfl := had.same hallowed
      obtain rfl := LoopCall.incidents_of hnotes
      exact ⟨q', q', had.followed (had.trail.passage hpass) hpass.attemptLast hq' rfl fun _ => rfl⟩
    | exit =>
      obtain ⟨i, hexit, hq'⟩ := h.exit had.came w
      obtain rfl := had.same hallowed
      rcases hexit with ⟨rfl, hnotes⟩ | ⟨rfl, hnotes⟩
      · exact ⟨_, _, had.quiet (LoopCall.incidents_of hnotes) hq'⟩
      · have hes := LoopCall.incidents_of hnotes
        refine ⟨.abandoned i, .due i, had.followed ?_ ?_ hq' rfl fun h => absurd h Bool.false_ne_true⟩
        · rw [hes]
          exact had.trail.snoc (.abandoned i)
        · rw [hes]
          intro before j r after hlog
          rw [List.filter_cons_of_pos rfl, List.filter_nil, List.singleton_eq_append_iff] at hlog
          simp at hlog

/-! ## The order -/

/-- The order in which a sequence of `n` children takes them, in the calls of one activation. -/
structure SequenceOrder (n : Nat) (past : List LoopCall) (t : Tree α σ) : Prop where
  succession : Succession (· + 1) past
  /-- The children that have finished are as many as the cursor tells, in order from the first. -/
  finished : finishers (childLog past) = List.range t.current
  current_le : t.current ≤ n
  complete_iff : ∀ w, t.isComplete w = true ↔ ∀ i < n, i ∈ finishers (childLog past)

/-- The order in which a loop of `n` children takes them, in the calls of one activation. -/
structure RoundOrder (n : Nat) (past : List LoopCall) (t : Tree α σ) : Prop where
  succession : Succession (Tree.around n) past
  /-- The children finish in rounds. -/
  finished : finishers (childLog past) = (List.range (finishers (childLog past)).length).map (· % n)
  current_le : 0 < n → t.current ≤ n
  /-- The cursor tells how many children have finished in this round. -/
  current_mod : 0 < n → t.current % n = (finishers (childLog past)).length % n
  complete_of_current : 0 < n → t.current = n → ∀ w, t.isComplete w = true

omit [Block α σ] in
/-- Children that advance from one to the next succeed each other. -/
theorem Advanced.succession {p : ChildPhase} (h : Advanced next P u past active p q) : Succession next past :=
  h.trail.succession h.later

/-- A sequence takes its children from the first to the last, and is complete when it is through. -/
theorem sequenceOrder {n : Nat} {p : ChildPhase} (h : Advanced (· + 1) (Tree.SequenceAt n) u past active p q) :
    SequenceOrder n past u := by
  have hcount : ∀ m, (· + 1)^[m] 0 = m := by
    intro m
    induction m with
    | zero => rfl
    | succ m ih => rw [Function.iterate_succ_apply', ih]
  obtain ⟨hfinished, hup⟩ := h.trail.finishers_eq
  simp only [hcount, List.map_id'] at hfinished hup
  obtain ⟨hcurrent, hle, hcomplete⟩ : u.current = q.upcoming (· + 1) ∧ u.current ≤ n ∧
      ∀ w, u.isComplete w = true ↔ n ≤ u.current := by
    cases h.came with
    | due hn hi => exact ⟨rfl, hi, fun w => by simp [Tree.isComplete, Tree.current, hn]⟩
    | inside hn hi => exact ⟨rfl, Nat.le_of_lt hi, fun w => by simp [Tree.isComplete, Tree.current, hn]⟩
  have hlen : u.current = (finishers (childLog past)).length := hcurrent.trans (h.upcoming.symm.trans hup)
  have hrange : finishers (childLog past) = List.range u.current := hlen ▸ hfinished
  refine ⟨h.succession, hrange, hle, fun w => ?_⟩
  rw [hcomplete w, hrange]
  constructor
  · intro hend i hi
    exact List.mem_range.mpr (Nat.lt_of_lt_of_le hi hend)
  · intro hall
    by_contra hlt
    have hlast := List.mem_range.mp (hall u.current (Nat.lt_of_not_le hlt))
    omega

/-- Going on `m` times from the first child of `n` leads to the child `m % n`. -/
theorem Tree.around_iterate (n m : Nat) : (around n)^[m] 0 = m % n := by
  induction m with
  | zero => rw [Function.iterate_zero_apply, Nat.zero_mod]
  | succ m ih => rw [Function.iterate_succ_apply', ih, around, Nat.mod_add_mod]

/-- A loop takes its children around and around. -/
theorem roundOrder {k : LoopKind σ} {n : Nat} {p : ChildPhase} (h : Advanced (Tree.around n) (Tree.RoundAt k n) u past active p q) :
    RoundOrder n past u := by
  obtain ⟨hfinished, hup⟩ := h.trail.finishers_eq
  simp only [Tree.around_iterate] at hfinished hup
  obtain ⟨hmod, hle, hcomplete⟩ : (0 < n → u.current % n = q.upcoming (Tree.around n)) ∧ (0 < n → u.current ≤ n) ∧
      (0 < n → u.current = n → ∀ w, u.isComplete w = true) := by
    cases h.came with
    | due s hn hi =>
      exact ⟨fun hpos => Nat.mod_eq_of_lt (hi hpos), fun hpos => Nat.le_of_lt (hi hpos),
        fun hpos heq => absurd heq (Nat.ne_of_lt (hi hpos))⟩
    | inside s hn hi =>
      exact ⟨fun _ => Nat.mod_eq_of_lt hi, fun _ => Nat.le_of_lt hi, fun _ heq => absurd heq (Nat.ne_of_lt hi)⟩
    | stopped hn hpos => exact ⟨fun _ => Nat.mod_self n, fun _ => Nat.le_refl n, fun _ _ _ => rfl⟩
  exact ⟨h.succession, hfinished, hle, fun hpos => (hmod hpos).trans (h.upcoming.symm.trans hup), hcomplete⟩

/-- Children are taken strictly in the order of the cursor. Take a sequence or a loop of any kind, with any children, and any history
that keeps the block contract. In the activation at hand the first attempt to enter a child is for the first one; a child is attempted
only after the one before it (in a loop the last one comes before the first) was entered, stepped, read complete after a step that
ended well, and left, or after an attempt at itself that failed; after an attempt that failed nothing comes but another one at the same
child; and nothing follows an attempt in its call, so a child is first stepped in a later one. The cursor of a sequence is the number
of children that have finished, never more than there are, and the sequence is complete exactly if all have. The cursor of a loop with
a body is never behind its end, and at its end only if the loop is complete. All of this is seen by watching, which changes nothing of
what any call does. -/
theorem children_in_order (body : List (Tree α σ)) :
    (LoopHistory (.ofList body) u past active →
      SequenceOrder body.length past u ∧ ∀ call w, Tree.Notes call u w (LoopCall.of call u w).incidents) ∧
    ∀ k : LoopKind σ, LoopHistory (.repeating k body) u past active →
      RoundOrder body.length past u ∧ ∀ call w, Tree.Notes call u w (LoopCall.of call u w).incidents := by
  constructor
  · intro hist
    have hsequence := Tree.sequence_takesInOrder (α := α) (σ := σ) body.length
    obtain ⟨p, q, had⟩ := hsequence.advanced (.due rfl (Nat.zero_le _)) hist
    exact ⟨sequenceOrder had, hsequence.notes had.came⟩
  · intro k hist
    have hloop := Tree.loop_takesInOrder (α := α) k body.length
    obtain ⟨p, q, had⟩ := hloop.advanced (.due false rfl id) hist
    exact ⟨roundOrder had, hloop.notes had.came⟩

end

/-- A callback, and then a wait. -/
def lampSteps : List (BuiltIn Bool) := [.leaf (.perform id), .leaf (.waitFor lampSlot 1.0)]

/-- In the tick that finishes the callback the wait cannot be entered; it is entered in the next one. -/
theorem children_in_order_lamp : ∃ u past v past', LoopHistory (.ofList lampSteps) u past true ∧
    childLog past = [.entered 0 (.ok ()), .stepped 0 (.ok ()) true, .left 0, .entered 1 (.error .actionsNotInitialized),
      .entered 1 (.ok ())] ∧ SequenceOrder 2 past u ∧ (∀ call w, Tree.Notes call u w (LoopCall.of call u w).incidents) ∧
    LoopHistory (.repeating .forever lampSteps) v past' true ∧ RoundOrder 2 past' v := by
  have entered := LoopHistory.call .enter true (.fresh (t := .ofList lampSteps)) rfl
  have failed := LoopHistory.call (.run 1.0) false entered rfl
  have retried := LoopHistory.call (.run 1.0) true failed rfl
  have looped := LoopHistory.call .enter true (.fresh (t := .repeating .forever lampSteps)) rfl
  obtain ⟨horder, hnotes⟩ := (children_in_order lampSteps).1 retried
  exact ⟨_, _, _, _, retried, rfl, horder, hnotes, looped, ((children_in_order lampSteps).2 .forever looped).1⟩

end BlockScript
