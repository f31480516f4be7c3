import BlockScript.Proofs.Block.Course
import BlockScript.Proofs.Block.LeafCalls
import BlockScript.Proofs.Block.Lockstep

/-!
# Two runs of a tree

A tree of sequences and endless loops is run twice, by a calm run in which no leaf fails and by a rough run in which leaves cannot be
entered now and then. The leaves keep a `Pace` that failed attempts do not change. While the rough run keeps up, the two trees are
`Abreast`. When it fails to enter a leaf that the calm run entered, it is `Late` by this one entry, at whatever level of the tree the
parent stands that will try again. `Abreast.tick` says what a tick of both runs comes to, and `Late.tick` what a tick of the rough run
alone does, which makes up for the entry or fails at it once more.
-/

namespace BlockScript

/-! ## Leaves that keep a pace -/

/-- A leaf whose runs never fail and that completes after a number of runs. It is in some state of the pace, by the number of runs
since it was last entered, or at rest. -/
structure Pace (α : Type u) {σ : Type v} [Block α σ] where
  state : Option Nat → α → Prop
  complete : Nat → Bool
  enter_ok : ∀ {b} {w : σ}, state none b → (Block.enter b w).1 = .ok () → state (some 0) (Block.enter b w).2.1
  enter_error : ∀ {b} {w : σ} {e}, state none b → (Block.enter b w).1 = .error e → state none (Block.enter b w).2.1
  run_ok : ∀ {n b} dt (w : σ), state (some n) b → (Block.run dt b w).1 = .ok ()
  run_state : ∀ {n b} dt (w : σ), state (some n) b → state (some (n + 1)) (Block.run dt b w).2.1
  exit_state : ∀ {n b} (w : σ), state (some n) b → state none (Block.exit b w).1
  isComplete_eq : ∀ {n b} (w : σ), state (some n) b → Block.isComplete b w = complete n

section

variable {κ : Type w} {α : Type u} {σ : Type v}

/-- An attempt to enter a leaf that failed. -/
def Event.refused : Event → Bool
  | enter (.error _) => true
  | _ => false

/-- The calls that did not fail. -/
def successes (log : List (κ × Event)) : List (κ × Event) := log.filter (·.2.outcome.isOk)

/-- The number of attempts to enter a leaf that failed. -/
def refusals (log : List (κ × Event)) : Nat := log.countP (·.2.refused)

theorem successes_append (log es : List (κ × Event)) : successes (log ++ es) = successes log ++ successes es :=
  List.filter_append ..

theorem refusals_append (log es : List (κ × Event)) : refusals (log ++ es) = refusals log + refusals es := List.countP_append

/-- The calm and the rough run have had the same successes, the rough one with a number of failures. -/
structure Level (j : Nat) (o o' : Observation κ σ) : Prop where
  same : successes o.log = successes o'.log
  count : refusals o'.log = j

/-- The rough run lacks the last success of the calm one: it has not entered a leaf yet. -/
structure Behind (j : Nat) (k : κ) (o o' : Observation κ σ) : Prop where
  lacking : successes o.log = successes o'.log ++ [(k, .enter (.ok ()))]
  count : refusals o'.log = j

namespace Level

variable {j : Nat} {o o' : Observation κ σ} (h : Level j o o')

include h

/-- Both runs make a call. -/
theorem both {w v : σ} (k : κ) {event : Event} (hrefused : event.refused = false) :
    Level j ⟨w, o.log ++ [(k, event)]⟩ ⟨v, o'.log ++ [(k, event)]⟩ where
  same := by rw [successes_append, successes_append, h.same]
  count := by
    rw [refusals_append, h.count]
    simp [refusals, hrefused]

/-- The rough run fails at an entry that the calm one makes. -/
theorem refused {w v : σ} (k : κ) (e : BlockError) :
    Behind (j + 1) k ⟨w, o.log ++ [(k, .enter (.ok ()))]⟩ ⟨v, o'.log ++ [(k, .enter (.error e))]⟩ where
  lacking := by
    have hok : successes [(k, Event.enter (.ok ()))] = [(k, .enter (.ok ()))] := rfl
    have herror : successes [(k, Event.enter (.error e))] = [] := rfl
    rw [successes_append, successes_append, hok, herror, List.append_nil, h.same]
  count := by
    rw [refusals_append, h.count]
    rfl

end Level

namespace Behind

variable {j : Nat} {k : κ} {o o' : Observation κ σ} (h : Behind j k o o')

include h

/-- The rough run makes up for the entry. -/
theorem made {v : σ} : Level j o ⟨v, o'.log ++ [(k, .enter (.ok ()))]⟩ where
  same := by
    rw [successes_append, h.lacking]
    rfl
  count := by
    rw [refusals_append, h.count]
    rfl

/-- The rough run fails at the entry once more. -/
theorem again {v : σ} (e : BlockError) : Behind (j + 1) k o ⟨v, o'.log ++ [(k, .enter (.error e))]⟩ where
  lacking := by
    have herror : successes [(k, Event.enter (.error e))] = [] := rfl
    rw [successes_append, herror, List.append_nil, h.lacking]
  count := by
    rw [refusals_append, h.count]
    rfl

end Behind

variable [Block α σ]

/-! ## Two runs of a tree -/

/-- A tree whose leaves are observed. -/
abbrev Watched (κ : Type w) (α : Type u) (σ : Type v) := Tree (Observed κ α) (Observation κ σ)

/-- The same leaf at rest in both runs. -/
def Resting (b c : Observed κ α) : Prop := b.key = c.key ∧ ∃ p : Pace α, p.state none b.block ∧ p.state none c.block

/-- The same leaf, entered in both runs and run as often since. -/
def Going (b c : Observed κ α) : Prop :=
  b.key = c.key ∧ ∃ (p : Pace α) (n : Nat), p.state (some n) b.block ∧ p.state (some n) c.block

/-- The same leaf, just entered in the calm run and at rest in the rough one. -/
def Ahead (b c : Observed κ α) : Prop := b.key = c.key ∧ ∃ p : Pace α, p.state (some 0) b.block ∧ p.state none c.block

namespace Tree

/-- The same tree at rest in both runs, wherever its cursors were left. -/
abbrev AtRest (c d : Watched κ α σ) : Prop := Akin Resting (fun k l => k = .forever ∧ l = .forever) c d

/-- The same children at rest in both runs. -/
abbrev AllAtRest (cs ds : List (Watched κ α σ)) : Prop :=
  Paired Resting (fun k l => k = .forever ∧ l = .forever) cs ds

/-- The same children, at rest in both runs but for the one at an index. -/
structure Aside (i : Nat) (cs ds : List (Watched κ α σ)) : Prop where
  length : cs.length = ds.length
  atRest : ∀ n c d, n ≠ i → cs[n]? = some c → ds[n]? = some d → AtRest c d

/-- The same entered tree in both runs, at the same point. -/
inductive Abreast : Watched κ α σ → Watched κ α σ → Prop where
  | leaf {b c : Observed κ α} : Going b c → Abreast (leaf b) (leaf c)
  | finished {k : Course} {cs ds : List (Watched κ α σ)} {i : Nat} : k.Over cs.length i → AllAtRest cs ds →
      Abreast (composite k cs i false) (composite k ds i false)
  | going {k : Course} {cs ds : List (Watched κ α σ)} {i : Nat} {c d : Watched κ α σ} :
      Aside i cs ds → cs[i]? = some c → ds[i]? = some d → Abreast c d → Abreast (composite k cs i true) (composite k ds i true)

/-- The calm run has entered the tree and with it a leaf, and the rough one could not. -/
inductive Missing (key : κ) : Watched κ α σ → Watched κ α σ → Prop where
  | leaf {b c : Observed κ α} : b.key = key → Ahead b c → Missing key (leaf b) (leaf c)
  | inside {k : Course} {cs ds : List (Watched κ α σ)} {j : Nat} {f : Bool} {c d : Watched κ α σ} :
      Aside 0 cs ds → cs[0]? = some c → ds[0]? = some d → Missing key c d →
      Missing key (composite k cs 0 true) (composite k ds j f)

/-- The calm run has gone on to a child and entered a leaf with it, and the rough one could not. -/
inductive Late (key : κ) : Watched κ α σ → Watched κ α σ → Prop where
  | here {k : Course} {cs ds : List (Watched κ α σ)} {i : Nat} {c d : Watched κ α σ} :
      Aside i cs ds → cs[i]? = some c → ds[i]? = some d → Missing key c d →
      Late key (composite k cs i true) (composite k ds i false)
  | deeper {k : Course} {cs ds : List (Watched κ α σ)} {i : Nat} {c d : Watched κ α σ} :
      Aside i cs ds → cs[i]? = some c → ds[i]? = some d → Late key c d →
      Late key (composite k cs i true) (composite k ds i true)

variable {cs ds : List (Watched κ α σ)} {c d : Watched κ α σ} {i j : Nat}
  {o o' : Observation κ σ}

/-- Children at rest are at rest beside any index. -/
theorem Paired.aside (h : AllAtRest cs ds) (i : Nat) : Aside i cs ds := ⟨h.length, fun n c d _ => h.akin n c d⟩

/-- What stands under the index is left open. -/
theorem Aside.set (h : Aside i cs ds) (c d : Watched κ α σ) : Aside i (cs.set i c) (ds.set i d) where
  length := by simp [h.length]
  atRest n c' d' hn hc hd := by
    rw [List.getElem?_set_ne hn.symm] at hc hd
    exact h.atRest n c' d' hn hc hd

/-- What the rough tree has at the index may be replaced. -/
theorem Aside.set_rough (h : Aside i cs ds) (d : Watched κ α σ) : Aside i cs (ds.set i d) where
  length := by simp [h.length]
  atRest n c' d' hn hc hd := by
    rw [List.getElem?_set_ne hn.symm] at hd
    exact h.atRest n c' d' hn hc hd

/-- The child at the index comes to rest too. -/
theorem Aside.rest (h : Aside i cs ds) (hcd : AtRest c d) : AllAtRest (cs.set i c) (ds.set i d) where
  length := by simp [h.length]
  akin n c' d' hc hd := by
    by_cases hn : n = i
    · subst hn
      have hi : n < cs.length := by simpa using (List.getElem?_eq_some_iff.mp hc).1
      rw [List.getElem?_set_self hi] at hc
      rw [List.getElem?_set_self (h.length ▸ hi)] at hd
      cases hc
      cases hd
      exact hcd
    · exact (h.set c d).atRest n c' d' hn hc hd

/-- Trees that are abreast read complete alike. -/
theorem Abreast.isComplete_eq (h : Abreast c d) (o o' : Observation κ σ) : isComplete c o = isComplete d o' := by
  cases h with
  | leaf hgoing =>
    obtain ⟨-, p, n, hb, hc⟩ := hgoing
    exact (p.isComplete_eq o.world hb).trans (p.isComplete_eq o'.world hc).symm
  | @finished k cs ds i hover hrest =>
    cases k with
    | once => simp [composite, isComplete, hrest.length]
    | forever => rfl
  | @going k cs ds i c d haside hc hd hcd =>
    have hi : i < cs.length := (List.getElem?_eq_some_iff.mp hc).1
    have hi' : i < ds.length := (List.getElem?_eq_some_iff.mp hd).1
    rw [isComplete_composite k hi, isComplete_composite k hi']

/-- A tree that the rough run is late with is not complete in the calm one. -/
theorem Late.isComplete_eq {key : κ} (h : Late key c d) (o : Observation κ σ) : isComplete c o = false := by
  cases h with
  | here _ hc => exact isComplete_composite _ (List.getElem?_eq_some_iff.mp hc).1 _ o
  | deeper _ hc => exact isComplete_composite _ (List.getElem?_eq_some_iff.mp hc).1 _ o

/-! ## Calls of both runs -/

/-- What a call of both runs comes to that ended well in the calm one: the trees are abreast, or the rough run could not enter a leaf
that the calm one entered. -/
inductive Tandem (R : κ → Watched κ α σ → Watched κ α σ → Prop) (j : Nat) :
    Outcome × Watched κ α σ × Observation κ σ → Outcome × Watched κ α σ × Observation κ σ → Prop where
  | both {c d : Watched κ α σ} {o o' : Observation κ σ} : Abreast c d → Level j o o' →
      Tandem R j (.ok (), c, o) (.ok (), d, o')
  | missed {c d : Watched κ α σ} {o o' : Observation κ σ} (key : κ) (e : BlockError) : R key c d →
      Behind (j + 1) key o o' → Tandem R j (.ok (), c, o) (.error e, d, o')

/-- Whatever the calm run can enter, the rough run enters as well, or it misses the leaf. -/
def EntersBoth (c d : Watched κ α σ) : Prop :=
  ∀ {j : Nat} {o o' : Observation κ σ}, Level j o o' → (enter c o).1 = .ok () → Tandem Missing j (enter c o) (enter d o')

/-! ## Entering -/

variable {R : κ → Watched κ α σ → Watched κ α σ → Prop}

/-- Two composites attempt to enter the same child. `R` is how they then stand if the rough run cannot. -/
theorem attempt_both {k : Course} (h : AllAtRest cs ds)
    (hentry : ∀ (n : Nat) c d, cs[n]? = some c → ds[n]? = some d → EntersBoth c d) (hover : cs.length ≤ i → k.Over cs.length i)
    (hR : ∀ {key cs ds c d}, Aside i cs ds → cs[i]? = some c → ds[i]? = some d → Missing key c d →
      R key (composite k cs i true) (composite k ds i false))
    (hlevel : Level j o o') (hok : (attempt k cs i o).1 = .ok ()) : Tandem R j (attempt k cs i o) (attempt k ds i o') := by
  rcases h.getElem? i with ⟨hc, hd⟩ | ⟨c, d, hc, hd⟩
  · have hi : cs.length ≤ i := List.getElem?_eq_none_iff.mp hc
    rw [attempt_of_length_le k hi, attempt_of_length_le k (h.length ▸ hi)]
    exact .both (.finished (hover hi) h) hlevel
  · have hi : i < cs.length := (List.getElem?_eq_some_iff.mp hc).1
    have hi' : i < ds.length := (List.getElem?_eq_some_iff.mp hd).1
    rw [attempt_of_getElem? k hc] at hok ⊢
    rw [attempt_of_getElem? k hd]
    have hchild := hentry i c d hc hd hlevel hok
    generalize enter c o = x at hchild
    generalize enter d o' = y at hchild
    cases hchild with
    | @both c' d' _ _ habreast hlevel' =>
      exact .both (.going ((h.aside i).set c' d') (List.getElem?_set_self hi) (List.getElem?_set_self hi') habreast) hlevel'
    | @missed c' d' _ _ key e hmissing hbehind =>
      exact .missed key e (hR ((h.aside i).set c' d') (List.getElem?_set_self hi) (List.getElem?_set_self hi') hmissing) hbehind

/-- Entering an observed leaf enters the leaf, and notes how that ended. -/
theorem enter_observed (b : Observed κ α) (o : Observation κ σ) : enter (leaf b) o = ((Block.enter b.block o.world).1,
    leaf ⟨b.key, (Block.enter b.block o.world).2.1⟩,
    ⟨(Block.enter b.block o.world).2.2, o.log ++ [(b.key, .enter (Block.enter b.block o.world).1)]⟩) := rfl

/-- Leaves at rest are both entered, or the rough one is refused. -/
theorem leaf_entersBoth {b c : Observed κ α} (h : Resting b c) : EntersBoth (leaf b) (leaf c) := by
  intro j o o' hlevel hok
  obtain ⟨hkey, p, hb, hc⟩ := h
  rw [enter_observed] at hok ⊢
  rw [enter_observed]
  have hok' : (Block.enter b.block o.world).1 = .ok () := hok
  have hb' := p.enter_ok hb hok'
  simp only [hok', hkey]
  rcases hr : (Block.enter c.block o'.world).1 with e | ⟨⟩
  · exact .missed c.key e (.leaf rfl ⟨rfl, p, hb', p.enter_error hc hr⟩) (hlevel.refused c.key e)
  · exact .both (.leaf ⟨rfl, p, 0, hb', p.enter_ok hc hr⟩) (hlevel.both c.key rfl)

/-- Trees at rest are both entered, or the rough one is refused. -/
theorem AtRest.entersBoth (h : AtRest c d) : EntersBoth c d := by
  induction h with
  | leaf h => exact leaf_entersBoth h
  | sequence hlength hrest ih =>
    intro j o o' hlevel hok
    exact attempt_both ⟨hlength, hrest⟩ ih (Course.over_zero .once) .inside hlevel hok
  | loop hk hlength hrest ih =>
    intro j o o' hlevel hok
    obtain ⟨rfl, rfl⟩ := hk
    rw [enter_forever] at hok ⊢
    rw [enter_forever]
    exact attempt_both ⟨hlength, hrest⟩ ih (Course.over_zero .forever) .inside hlevel hok

/-! ## Trying again -/

/-- What a call of the rough run alone comes to that tries to make up for an entry. -/
inductive CatchUp (R : κ → Watched κ α σ → Watched κ α σ → Prop) (j : Nat) (key : κ) (c : Watched κ α σ) (o : Observation κ σ) :
    Outcome × Watched κ α σ × Observation κ σ → Prop where
  | made {d : Watched κ α σ} {o' : Observation κ σ} : Abreast c d → Level j o o' →
      CatchUp R j key c o (.ok (), d, o')
  | again {d : Watched κ α σ} {o' : Observation κ σ} (e : BlockError) : R key c d →
      Behind (j + 1) key o o' → CatchUp R j key c o (.error e, d, o')

variable {key : κ}

/-- The rough composite attempts again to enter the child that the calm one entered. -/
theorem attempt_again {k : Course} (haside : Aside i cs ds) (hc : cs[i]? = some c) (hd : ds[i]? = some d)
    (hchild : CatchUp Missing j key c o (enter d o'))
    (hR : ∀ {ds d}, Aside i cs ds → ds[i]? = some d → Missing key c d → R key (composite k cs i true) (composite k ds i false)) :
    CatchUp R j key (composite k cs i true) o (attempt k ds i o') := by
  have hi : i < ds.length := (List.getElem?_eq_some_iff.mp hd).1
  rw [attempt_of_getElem? k hd]
  generalize enter d o' = y at hchild
  cases hchild with
  | @made d' o₁ habreast hlevel =>
    exact .made (.going (haside.set_rough d') hc (List.getElem?_set_self hi) habreast) hlevel
  | @again d' o₁ e hmissing hbehind =>
    exact .again e (hR (haside.set_rough d') (List.getElem?_set_self hi) hmissing) hbehind

/-- A tree that misses an entry catches up with it, or misses it still. -/
theorem Missing.retry (h : Missing key c d) (hbehind : Behind j key o o') : CatchUp Missing j key c o (enter d o') := by
  induction h with
  | @leaf b c hbkey hahead =>
    obtain ⟨hkey, p, hb, hc⟩ := hahead
    rw [enter_observed, ← hkey, hbkey]
    rcases hr : (Block.enter c.block o'.world).1 with e | ⟨⟩
    · exact .again e (.leaf hbkey ⟨hbkey, p, hb, p.enter_error hc hr⟩) (hbehind.again e)
    · exact .made (.leaf ⟨hbkey, p, 0, hb, p.enter_ok hc hr⟩) hbehind.made
  | @inside k cs ds j f c d haside hc hd hmissing ih =>
    rw [enter_composite]
    exact attempt_again haside hc hd ih fun haside' hd' hmissing' => .inside haside' hc hd' hmissing'

/-- A tick of the rough run alone makes up for the entry, or fails at it once more. -/
theorem Late.tick (h : Late key c d) (dt : Float) (hbehind : Behind j key o o') : CatchUp Late j key c o (run dt d o') := by
  induction h with
  | @here k cs ds i c d haside hc hd hmissing =>
    have hi : i < ds.length := (List.getElem?_eq_some_iff.mp hd).1
    rw [run_composite_retry hi]
    exact attempt_again haside hc hd (hmissing.retry hbehind) fun haside' hd' hmissing' => .here haside' hc hd' hmissing'
  | @deeper k cs ds i c d haside hc hd hlate ih =>
    have hi : i < ds.length := (List.getElem?_eq_some_iff.mp hd).1
    generalize hrun : run dt d o' = y at ih
    cases ih with
    | @made d' o₁ habreast hlevel =>
      have hopen : isComplete d' o₁ = false := (habreast.isComplete_eq o o₁).symm.trans (hlate.isComplete_eq o)
      rw [run_composite_busy hd hrun hopen]
      exact .made (.going (haside.set_rough d') hc (List.getElem?_set_self hi) habreast) hlevel
    | @again d' o₁ e hlate' hbehind' =>
      rw [run_composite_error hd hrun]
      exact .again e (.deeper (haside.set_rough d') hc (List.getElem?_set_self hi) hlate') hbehind'

/-! ## Exiting -/

/-- Exiting an observed leaf exits the leaf, which is noted. -/
theorem exit_observed (b : Observed κ α) (o : Observation κ σ) : exit (leaf b) o =
    (leaf ⟨b.key, (Block.exit b.block o.world).1⟩, ⟨(Block.exit b.block o.world).2, o.log ++ [(b.key, .exit)]⟩) := rfl

/-- Composites whose children are at rest are at rest. -/
theorem Paired.atRest (h : AllAtRest cs ds) (k : Course) (i j : Nat) (e f : Bool) :
    AtRest (composite k cs i e) (composite k ds j f) := by
  cases k with
  | once => exact h.akin_sequence i j e f
  | forever => exact h.akin_loop ⟨rfl, rfl⟩ i j false false e f

/-- Trees that are abreast come to rest when both are exited. -/
theorem Abreast.exit (h : Abreast c d) (hlevel : Level j o o') :
    AtRest (Tree.exit c o).1 (Tree.exit d o').1 ∧ Level j (Tree.exit c o).2 (Tree.exit d o').2 := by
  induction h with
  | @leaf b c hgoing =>
    obtain ⟨hkey, p, n, hb, hc⟩ := hgoing
    rw [exit_observed, exit_observed, hkey]
    exact ⟨.leaf ⟨rfl, p, p.exit_state _ hb, p.exit_state _ hc⟩, hlevel.both c.key rfl⟩
  | @finished k cs ds i hover hrest =>
    rw [exit_composite_idle, exit_composite_idle]
    exact ⟨hrest.atRest k i i false false, hlevel⟩
  | @going k cs ds i c d haside hc hd habreast ih =>
    obtain ⟨hrest, hlevel'⟩ := ih
    rw [exit_composite k hc, exit_composite k hd]
    exact ⟨(haside.rest hrest).atRest k i i false false, hlevel'⟩

/-! ## Ticking -/

/-- Running an observed leaf runs the leaf, and notes how that ended. -/
theorem run_observed (dt : Float) (b : Observed κ α) (o : Observation κ σ) : run dt (leaf b) o = ((Block.run dt b.block o.world).1,
    leaf ⟨b.key, (Block.run dt b.block o.world).2.1⟩,
    ⟨(Block.run dt b.block o.world).2.2, o.log ++ [(b.key, .run (Block.run dt b.block o.world).1)]⟩) := rfl

/-- A tick of both runs: they stay abreast, or the rough one is late with an entry. -/
theorem Abreast.tick (h : Abreast c d) (dt dt' : Float) (hlevel : Level j o o') (hok : (run dt c o).1 = .ok ()) :
    Tandem Late j (run dt c o) (run dt' d o') := by
  induction h with
  | @leaf b c hgoing =>
    obtain ⟨hkey, p, n, hb, hc⟩ := hgoing
    rw [run_observed, run_observed, p.run_ok dt o.world hb, p.run_ok dt' o'.world hc, hkey]
    exact .both (.leaf ⟨rfl, p, n + 1, p.run_state dt _ hb, p.run_state dt' _ hc⟩) (hlevel.both c.key rfl)
  | @finished k cs ds i hover hrest =>
    rw [run_composite_over hover, run_composite_over (hrest.length ▸ hover)]
    exact .both (.finished hover hrest) hlevel
  | @going k cs ds i c d haside hc hd habreast ih =>
    have hi : i < cs.length := (List.getElem?_eq_some_iff.mp hc).1
    have hi' : i < ds.length := (List.getElem?_eq_some_iff.mp hd).1
    have hpair := ih (run_child_ok hc hok)
    generalize hcalm : run dt c o = x at hpair
    generalize hrough : run dt' d o' = y at hpair
    cases hpair with
    | @both c' d' o₁ o₁' habreast' hlevel' =>
      have hdone := habreast'.isComplete_eq o₁ o₁'
      cases hcomplete : isComplete c' o₁ with
      | false =>
        rw [run_composite_busy hc hcalm hcomplete, run_composite_busy hd hrough (hdone.symm.trans hcomplete)]
        exact .both (.going (haside.set c' d') (List.getElem?_set_self hi) (List.getElem?_set_self hi') habreast') hlevel'
      | true =>
        -- Both exit the child and come to the next one, which the rough run may not be able to enter.
        obtain ⟨hrest, hlevel''⟩ := habreast'.exit hlevel'
        have hrests := haside.rest hrest
        rw [run_composite_next hc hcalm hcomplete] at hok ⊢
        rw [run_composite_next hd hrough (hdone.symm.trans hcomplete), ← haside.length]
        have hentry : ∀ n c d, _ → _ → EntersBoth c d := fun n c d hc hd => AtRest.entersBoth (hrests.akin n c d hc hd)
        refine attempt_both hrests hentry (fun hend => ?_) .here hlevel'' hok
        rw [List.length_set] at hend ⊢
        exact Course.over_next hend
    | @missed c' d' o₁ o₁' key e hlate hbehind =>
      rw [run_composite_busy hc hcalm (hlate.isComplete_eq o₁), run_composite_error hd hrough]
      exact .missed key e (.deeper (haside.set c' d') (List.getElem?_set_self hi) (List.getElem?_set_self hi') hlate) hbehind

/-- After calls on both, the two trees are abreast or the rough one is behind by an entry. -/
theorem Tandem.elim {c d : Watched κ α σ} {r r' : Outcome} (h : Tandem R j (r, c, o) (r', d, o')) :
    (Abreast c d ∧ Level j o o') ∨ ∃ key, R key c d ∧ Behind (j + 1) key o o' := by
  cases h with
  | both habreast hlevel => exact Or.inl ⟨habreast, hlevel⟩
  | missed key e hR hbehind => exact Or.inr ⟨key, hR, hbehind⟩

/-- After a call on the rough tree alone, it is abreast of the other or as far behind as before. -/
theorem CatchUp.elim {r : Outcome} (h : CatchUp R j key c o (r, d, o')) :
    (Abreast c d ∧ Level j o o') ∨ (R key c d ∧ Behind (j + 1) key o o') := by
  cases h with
  | made habreast hlevel => exact Or.inl ⟨habreast, hlevel⟩
  | again e hR hbehind => exact Or.inr ⟨hR, hbehind⟩

end Tree

end

end BlockScript
