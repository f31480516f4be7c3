import BlockScript.Proofs.Block.Tandem

/-!
# Failed entries

Leaves that cannot be entered now and then hold up a tree, and do nothing else to it: a run that meets with such failures makes the
calls of a run that does not, in the same order, and falls behind by one tick with each failure (`failed_entry_delays`). How far it
can be is a `Lag`, which is kept from tick to tick.
-/

namespace BlockScript

section

variable {κ : Type w}

/-- How far the rough run can be from the calm one that has `n` ticks and the given successes before it, when it has `m` ticks and makes
the given calls in them: it does not get ahead, and it lags by one tick for each failure. -/
structure Lag (n m : Nat) (calm : List (κ × Event)) (rough : List (κ × Event)) : Prop where
  behind : m ≤ n → successes rough <+: calm
  limit : n + refusals rough ≤ m → calm <+: successes rough

namespace Lag

variable {n m : Nat} {calm rough : List (κ × Event)}

/-- A rough run without ticks has made no calls yet. -/
theorem start (h : n = 0 → calm = []) : Lag n 0 calm ([] : List (κ × Event)) where
  behind _ := List.nil_prefix
  limit hle := by
    rw [h (Nat.le_zero.mp (Nat.le_trans (Nat.le_add_right n _) hle))]
    exact List.nil_prefix

/-- A calm run without ticks has made no calls that the rough one lacks. -/
theorem done : Lag 0 (m + 1) [] rough where
  behind hle := absurd hle (Nat.not_succ_le_zero m)
  limit _ := List.nil_prefix

/-- A tick of the rough run without a failure. -/
theorem keep (h : Lag n m calm rough) {es : List (κ × Event)} (hes : refusals es = 0) :
    Lag (n + 1) (m + 1) (successes es ++ calm) (es ++ rough) where
  behind hle := by
    rw [successes_append, List.prefix_append_right_inj]
    exact h.behind (Nat.le_of_succ_le_succ hle)
  limit hle := by
    rw [successes_append, List.prefix_append_right_inj]
    rw [refusals_append, hes] at hle
    exact h.limit (by omega)

/-- A tick of the rough run with a failure. -/
theorem fall (h : Lag (n + 1) m calm rough) {es : List (κ × Event)} (hes : refusals es = 1) :
    Lag (n + 1) (m + 1) (successes es ++ calm) (es ++ rough) where
  behind hle := by
    rw [successes_append, List.prefix_append_right_inj]
    exact h.behind (Nat.le_of_succ_le hle)
  limit hle := by
    rw [successes_append, List.prefix_append_right_inj]
    rw [refusals_append, hes] at hle
    exact h.limit (by omega)

end Lag

/-- A tick that failed made a call that failed. -/
theorem Tick.failed {o o' : Option κ} {es : List (κ × Event)} {e : BlockError} (h : Tick o es (.error e) o') :
    ∃ x ∈ es, x.2.outcome = .error e := by
  cases h with
  | held hheld =>
    cases hheld with
    | ran k => exact ⟨(k, .run (.error e)), List.mem_singleton_self _, rfl⟩
  | entering _ hentry =>
    cases hentry with
    | refused k => exact ⟨(k, .enter (.error e)), by simp, rfl⟩

namespace Tree

variable {α : Type u} {σ : Type v}

/-- What is known of all leaves and loops of a tree is known of them where they are observed. -/
theorem All.observe {S : α → Prop} {t : Tree α σ} (h : All S (· = .forever) t) :
    ∀ p, All (fun b : Observed Place α => S b.block) (· = .forever) (t.observe p) := by
  have hchildren : ∀ {cs : List (Tree α σ)} {p : Place},
      (∀ c ∈ cs, ∀ p, All (fun b : Observed Place α => S b.block) (· = .forever) (c.observe p)) →
      ∀ c ∈ observeFrom p 0 cs, All (fun b : Observed Place α => S b.block) (· = .forever) c := by
    intro cs p ih c hc
    obtain ⟨i, hi⟩ := List.mem_iff_getElem?.mp hc
    rw [getElem?_observe, Option.map_eq_some_iff] at hi
    obtain ⟨d, hd, rfl⟩ := hi
    exact ih d (List.mem_of_getElem? hd) _
  induction h with
  | leaf hb =>
    intro p
    exact .leaf hb
  | sequence _ ih =>
    intro p
    exact .sequence (hchildren ih)
  | loop hk _ ih =>
    intro p
    subst hk
    exact .loop rfl (hchildren ih)

variable [Block α σ]

/-- The calls that leaves receive in a tick of a tree. -/
def tickLog (dt : Float) (t : Tree α σ) (w : σ) : List (Place × Event) := (run dt (t.observe []) ⟨w, []⟩).2.2.log

/-- The calls that leaves receive in some ticks of a tree, each made in a world of its own. -/
def tickCalls : List (Float × σ) → Tree α σ → List (Place × Event)
  | [], _ => []
  | (dt, w) :: ticks, t => tickLog dt t w ++ tickCalls ticks (run dt t w).2.1

/-- The calls that leaves receive when a tree is entered and then ticked. -/
def activationCalls (t : Tree α σ) (w : σ) (ticks : List (Float × σ)) : List (Place × Event) :=
  (enter (t.observe []) ⟨w, []⟩).2.2.log ++ tickCalls ticks (enter t w).2.1

/-! ## A tick of the observed tree -/

variable {dt dt' : Float} {c d t : Tree α σ} {w v : σ} {key : Place}

/-- A run of an observed tree notes the events of its leaves and is otherwise the run itself. -/
theorem run_observe_eq (dt : Float) (t : Tree α σ) (w : σ) : run dt (t.observe []) (⟨w, []⟩ : Observation Place σ) =
    ((run dt t w).1, (run dt t w).2.1.observe [], ⟨(run dt t w).2.2, tickLog dt t w⟩) := by
  obtain ⟨es, hrun, -⟩ := run_observe t dt [] w []
  rw [tickLog, hrun]

/-- A tick in which no call fails ends well. -/
theorem run_ok (hlog : ∀ x ∈ tickLog dt t w, x.2.outcome = .ok ()) : (run dt t w).1 = .ok () := by
  obtain ⟨es, hrun, htick, -⟩ := run_observe t dt [] w []
  rw [tickLog, hrun, List.nil_append] at hlog
  rcases hr : (run dt t w).1 with e | ⟨⟩
  · rw [hr] at htick
    obtain ⟨x, hx, hfail⟩ := htick.failed
    rw [hlog x hx] at hfail
    nomatch hfail
  · rfl

/-- After a tick of both runs they are abreast, or the rough one is late with an entry that the calm one made. -/
theorem Abreast.tickLog_cases (h : Abreast (c.observe []) (d.observe [])) (hok : (run dt c w).1 = .ok ()) (dt' : Float) (v : σ) :
    (Abreast ((run dt c w).2.1.observe []) ((run dt' d v).2.1.observe []) ∧
      successes (tickLog dt c w) = successes (tickLog dt' d v) ∧ refusals (tickLog dt' d v) = 0) ∨
    ∃ key, Late key ((run dt c w).2.1.observe []) ((run dt' d v).2.1.observe []) ∧
      successes (tickLog dt c w) = successes (tickLog dt' d v) ++ [(key, .enter (.ok ()))] ∧
      refusals (tickLog dt' d v) = 1 := by
  have hlevel : Level 0 (⟨w, []⟩ : Observation Place σ) ⟨v, []⟩ := ⟨rfl, rfl⟩
  have hpair := h.tick dt dt' hlevel (by rw [run_observe_eq]; exact hok)
  rw [run_observe_eq, run_observe_eq] at hpair
  rcases hpair.elim with ⟨habreast, hlevel'⟩ | ⟨key, hlate, hbehind⟩
  · exact Or.inl ⟨habreast, hlevel'.same, hlevel'.count⟩
  · exact Or.inr ⟨key, hlate, hbehind.lacking, hbehind.count⟩

/-- After a tick of the rough run alone it has made the entry, or it is late with it still. -/
theorem Late.tickLog_cases (h : Late key (c.observe []) (d.observe [])) (dt : Float) (v : σ) :
    (Abreast (c.observe []) ((run dt d v).2.1.observe []) ∧
      successes (tickLog dt d v) = [(key, .enter (.ok ()))] ∧ refusals (tickLog dt d v) = 0) ∨
    (Late key (c.observe []) ((run dt d v).2.1.observe []) ∧
      successes (tickLog dt d v) = [] ∧ refusals (tickLog dt d v) = 1) := by
  have hbehind : Behind 0 key (⟨v, [(key, .enter (.ok ()))]⟩ : Observation Place σ) ⟨v, []⟩ := ⟨rfl, rfl⟩
  have hpair := h.tick dt hbehind
  rw [run_observe_eq] at hpair
  rcases hpair.elim with ⟨habreast, hlevel⟩ | ⟨hlate, hbehind'⟩
  · exact Or.inl ⟨habreast, hlevel.same.symm, hlevel.count⟩
  · have hlacking : [(key, Event.enter (.ok ()))] = successes (tickLog dt d v) ++ [(key, .enter (.ok ()))] := hbehind'.lacking
    exact Or.inr ⟨hlate, by simpa using hlacking, hbehind'.count⟩

/-! ## Two series of ticks -/

/-- The two runs of a tree, from any point at which they are abreast or the rough one is late. -/
theorem lags (rough : List (Float × σ)) : ∀ (calm : List (Float × σ)) (c d : Tree α σ),
    (∀ x ∈ tickCalls calm c, x.2.outcome = .ok ()) →
    (Abreast (c.observe []) (d.observe []) →
      Lag calm.length rough.length (successes (tickCalls calm c)) (tickCalls rough d)) ∧
    ∀ key, Late key (c.observe []) (d.observe []) →
      Lag (calm.length + 1) rough.length ((key, .enter (.ok ())) :: successes (tickCalls calm c)) (tickCalls rough d) := by
  induction rough with
  | nil =>
    intro calm c d _
    refine ⟨fun _ => .start fun hlength => ?_, fun key _ => .start nofun⟩
    obtain rfl := List.eq_nil_of_length_eq_zero hlength
    rfl
  | cons tick rough ih =>
    obtain ⟨dt', v⟩ := tick
    intro calm c d hcalm
    constructor
    · intro habreast
      cases calm with
      | nil => exact .done
      | cons tick calm =>
        obtain ⟨dt, w⟩ := tick
        have hok : (run dt c w).1 = .ok () := run_ok fun x hx => hcalm x (List.mem_append_left _ hx)
        have hrest := ih calm (run dt c w).2.1 (run dt' d v).2.1 fun x hx => hcalm x (List.mem_append_right _ hx)
        rw [tickCalls, tickCalls, successes_append]
        rcases habreast.tickLog_cases hok dt' v with ⟨habreast', hsame, hcount⟩ | ⟨key, hlate, hlacking, hcount⟩
        · rw [hsame]
          exact (hrest.1 habreast').keep hcount
        · rw [hlacking, List.append_assoc]
          exact (hrest.2 key hlate).fall hcount
    · intro key hlate
      rw [tickCalls]
      rcases hlate.tickLog_cases dt' v with ⟨habreast, hmade, hcount⟩ | ⟨hlate', hnone, hcount⟩
      · have hkeep := ((ih calm c (run dt' d v).2.1 hcalm).1 habreast).keep hcount
        rwa [hmade] at hkeep
      · have hfall := ((ih calm c (run dt' d v).2.1 hcalm).2 key hlate').fall hcount
        rwa [hnone, List.nil_append] at hfall

/-- A failed entry is only a delay. A tree of sequences and endless loops, over leaves that keep a pace, is entered twice, and once its
ticks meet with no failure, while in the other run any leaves may fail to be entered at any time after the root was. After as many
ticks, or fewer, the calls that ended well in the rough run are the first ones of those of the calm run: no leaf is left out, run
once too often, run without being entered or run out of order. And once the rough run has made as many ticks more than the calm one as
entries failed in it, it has made all calls of the calm one. -/
theorem failed_entry_delays {t : Tree α σ} (ht : t.All (fun b => ∃ p : Pace α, p.state none b) (· = .forever)) {w v : σ}
    (hcalm : (t.enter w).1 = .ok ()) (hrough : (t.enter v).1 = .ok ()) {calm : List (Float × σ)}
    (hfree : ∀ x ∈ tickCalls calm (t.enter w).2.1, x.2.outcome = .ok ()) (rough : List (Float × σ)) :
    (rough.length ≤ calm.length → successes (activationCalls t v rough) <+: successes (activationCalls t w calm)) ∧
    ∀ k, refusals (activationCalls t v rough) ≤ k → calm.length + k ≤ rough.length →
      successes (activationCalls t w calm) <+: successes (activationCalls t v rough) := by
  have hrest : AtRest (t.observe []) (t.observe []) := by
    refine akin_self (fun b hb => ?_) (fun k hk => ⟨hk, hk⟩) (ht.observe [])
    obtain ⟨p, hp⟩ := hb
    exact ⟨rfl, p, hp, hp⟩
  obtain ⟨es, hc, -⟩ := enter_observe t [] w []
  obtain ⟨es', hd, -⟩ := enter_observe t [] v []
  rw [List.nil_append] at hc hd
  have hlevel : Level 0 (⟨w, []⟩ : Observation Place σ) ⟨v, []⟩ := ⟨rfl, rfl⟩
  have hpair := hrest.entersBoth hlevel (by rw [hc]; exact hcalm)
  rw [hc, hd, hcalm, hrough] at hpair
  cases hpair with
  | both habreast hlevel' =>
    have hlag := (lags rough calm _ _ hfree).1 habreast
    have hsame : successes es = successes es' := hlevel'.same
    have hcount : refusals es' = 0 := hlevel'.count
    rw [activationCalls, activationCalls, hc, hd, successes_append, successes_append, refusals_append, hcount, hsame,
      List.prefix_append_right_inj, List.prefix_append_right_inj]
    exact ⟨hlag.behind, fun k hk hlength => hlag.limit (by omega)⟩

end Tree

end

/-- A light that can be switched on while there is power, and has been on for a number of ticks. -/
structure Beacon where
  ticks : Nat

instance : Block Beacon Bool where
  create b power := (b, power)
  destroy b power := (b, power)
  enter b power := if power then (.ok (), ⟨0⟩, power) else (.error .actionsNotInitialized, b, power)
  run _ b power := (.ok (), ⟨b.ticks + 1⟩, power)
  exit b power := (b, power)
  isComplete b _ := decide (2 ≤ b.ticks)
  kind _ := "beacon"

/-- A beacon completes after two ticks, whatever the power does. -/
def Beacon.pace : Pace Beacon where
  state
    | none, _ => True
    | some n, b => b.ticks = n
  complete n := decide (2 ≤ n)
  enter_ok {b power} _ hok := by
    cases power with
    | true => rfl
    | false => nomatch hok
  enter_error _ _ := trivial
  run_ok _ _ _ := rfl
  run_state _ _ h := congrArg (· + 1) h
  exit_state _ _ := trivial
  isComplete_eq _ h := congrArg (fun n => decide (2 ≤ n)) h

/-- A beacon, and then two others in turn forever. -/
def beacons : Tree Beacon Bool := .ofList [.leaf ⟨0⟩, .repeating .forever [.leaf ⟨0⟩, .ofList [.leaf ⟨0⟩]]]

/-- Some ticks, each with or without power. -/
def powered (powers : List Bool) : List (Float × Bool) := powers.map (1.0, ·)

/-- The power fails when the second beacon is to be switched on, and twice when the third one is. -/
theorem failed_entry_delays_beacons :
    (beacons.All (fun b => ∃ p : Pace Beacon, p.state none b) (· = .forever) ∧ (beacons.enter true).1 = .ok () ∧
      ∀ x ∈ Tree.tickCalls (powered [true, true, true, true, true]) (beacons.enter true).2.1, x.2.outcome = .ok ()) ∧
    refusals (beacons.activationCalls true (powered [true, false, true, true, false, false, true, true])) = 3 ∧
    successes (beacons.activationCalls true (powered [true, true, true, true, true])) <+:
      successes (beacons.activationCalls true (powered [true, false, true, true, false, false, true, true])) := by
  have hbeacon : ∀ n, (Tree.leaf (σ := Bool) (Beacon.mk n)).All (fun b => ∃ p : Pace Beacon, p.state none b) (· = .forever) :=
    fun _ => .leaf ⟨Beacon.pace, trivial⟩
  have hinner : (Tree.ofList (σ := Bool) [.leaf (Beacon.mk 0)]).All (fun b => ∃ p : Pace Beacon, p.state none b) (· = .forever) :=
    .sequence (List.forall_mem_singleton.mpr (hbeacon 0))
  have hpace : beacons.All (fun b => ∃ p : Pace Beacon, p.state none b) (· = .forever) := by
    refine .sequence (List.forall_mem_cons.mpr ⟨hbeacon 0, List.forall_mem_singleton.mpr (.loop rfl ?_)⟩)
    exact List.forall_mem_cons.mpr ⟨hbeacon 0, List.forall_mem_singleton.mpr hinner⟩
  have hfree : ∀ x ∈ Tree.tickCalls (powered [true, true, true, true, true]) (beacons.enter true).2.1, x.2.outcome = .ok () := by
    have hcalls : (Tree.tickCalls (powered [true, true, true, true, true]) (beacons.enter true).2.1).map (·.2.outcome) =
        List.replicate 9 (.ok ()) := rfl
    intro x hx
    have hmem := List.mem_map_of_mem (f := fun x : Place × Event => x.2.outcome) hx
    rw [hcalls] at hmem
    exact List.eq_of_mem_replicate hmem
  have hrefusals : refusals (beacons.activationCalls true (powered [true, false, true, true, false, false, true, true])) = 3 := rfl
  have hdelay := Tree.failed_entry_delays hpace (w := true) (v := true) rfl rfl hfree
    (powered [true, false, true, true, false, false, true, true])
  exact ⟨⟨hpace, rfl, hfree⟩, hrefusals, hdelay.2 3 (Nat.le_of_eq hrefusals) (by decide)⟩

end BlockScript
