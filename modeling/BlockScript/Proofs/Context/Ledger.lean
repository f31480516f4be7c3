import BlockScript.Proofs.Block.Owner
import BlockScript.Proofs.Context.Estate

/-!
# The ledger of actions

Every firing of a block that says something, plays a sound or logs may be entered in a ledger, with the recorder that was in the slot of
its context at that moment and with what all recorders had been asked for before and after. Keeping the ledger changes nothing of what is
done (`Estate.Accords`). It accounts for every record that any recorder gets, whichever contexts the callbacks and tests operate
meanwhile (`actions_accounted`).
-/

namespace BlockScript

variable {κ μ : Type}

namespace Estate

/-! ## With and without a ledger -/

/-- The same estate, where a ledger is kept and where it is not. The ledger is balanced from `start` on. -/
structure Accords (start : Nat → List ActionRecord) (v w : Estate κ μ) : Prop where
  host : v.host = w.host
  runners : v.runners = w.runners
  sound : w.host.Sound
  kept : ∃ ledger, v.ledger = some ledger ∧ Balanced start ledger w.host.records
  plain : w.ledger = none

/-- The ledger stays balanced where a block fires, and where the host is changed in a way that no recorder notices. -/
theorem inStep_accords (start : Nat → List ActionRecord) (free : List Nat) :
    InStep Recording.Quiet free (Accords start : Estate κ μ → Estate κ μ → Prop) where
  host h := h.host
  runners h i _ := congrFun h.runners i
  act owner record v w h := by
    obtain ⟨host, runners, ledger⟩ := v
    obtain ⟨_, _, _⟩ := w
    obtain ⟨rfl, rfl, hsound, ⟨ledger, rfl, hledger⟩, rfl⟩ := h
    exact ⟨rfl, rfl, rfl, hsound.fire owner record, ⟨_, rfl, hledger.concat rfl (Recording.fire_right hsound owner record)⟩, rfl⟩
  onHost hf v w h := by
    obtain ⟨host, runners, ledger⟩ := v
    obtain ⟨_, _, _⟩ := w
    obtain ⟨rfl, rfl, hsound, ⟨ledger, rfl, hledger⟩, rfl⟩ := h
    obtain ⟨hsound', hrecords⟩ := hf host hsound
    exact ⟨rfl, rfl, hsound', ⟨ledger, rfl, hrecords ▸ hledger⟩, rfl⟩
  clear := Recording.quiet_clear
  put _ r v w h := ⟨h.host, by simp only [put, h.runners], h.sound, h.kept, h.plain⟩

/-- Estates that accord differ in nothing but the ledger. -/
theorem Accords.eq {start : Nat → List ActionRecord} {v w : Estate κ μ} (h : Accords start v w) :
    ∃ ledger, v = { w with ledger := some ledger } ∧ Balanced start ledger w.host.records := by
  obtain ⟨host, runners, ledger⟩ := v
  obtain ⟨_, _, _⟩ := w
  obtain ⟨rfl, rfl, -, ⟨ledger, rfl, hledger⟩, -⟩ := h
  exact ⟨ledger, rfl, hledger⟩

/-! ## Blocks that act or wait -/

/-- How a block that acts answers its owner. -/
structure FiresOnce (c : Cast κ (Estate κ μ)) (owner : Nat) (record : ActionRecord) : Prop where
  /-- It fires on the first run of an activation, which is entered in the ledger, and the run ends as the firing does. -/
  run : ∀ dt (w : Estate κ μ),
    let (firing, host) := Recording.fire owner record w.host
    Block.run dt ((Piece.action owner record false).build c) w =
      (firing.outcome, (Piece.action owner record true).build c, { w with host, ledger := w.ledger.map (· ++ [firing]) })
  /-- Where no ledger is kept, the run does what that of the block from the builder does. -/
  made : ∀ dt (w : Estate κ μ), w.ledger = none →
    let one := Block.run dt ((Piece.action owner record false).build c) w
    let other := Block.run dt ((Made.action owner record).block handle) w
    one.1 = other.1 ∧ one.2.2 = other.2.2
  right : ∀ w : Recording μ, w.Sound → (Recording.fire owner record w).1.Right
  /-- Then no call does anything until it is entered again. -/
  once : ∀ calls : List (OwnerCall × Estate κ μ), (∀ x ∈ calls, x.1 ≠ .enter) →
    account calls ((Piece.action owner record true).build c) = calls.map fun x => ⟨.ok (), x.2, true⟩
  enter : ∀ fired (w : Estate κ μ),
    Block.enter ((Piece.action owner record fired).build c) w = (.ok (), (Piece.action owner record false).build c, w)

/-- Every block that acts fires once in an activation. -/
theorem firesOnce (book : Playbook κ μ) (free : List Nat) (reach : Reach κ μ) (owner : Nat) (record : ActionRecord) :
    FiresOnce (book.cast free reach) owner record where
  run dt w := rfl
  made dt w hw := by
    have hact := act_of_ledger_none hw owner record
    have houtcome : (act owner record w).1 = ((handle owner).act record.request w).1 := congrArg Prod.fst hact
    have hworld : (act owner record w).2 = ((handle owner).act record.request w).2 := congrArg Prod.snd hact
    rw [Made.block_action]
    exact ⟨houtcome, hworld⟩
  right w hw := Recording.fire_right hw owner record
  once calls hcalls := by
    induction calls with
    | nil => rfl
    | cons x calls ih =>
      obtain ⟨call, w⟩ := x
      obtain ⟨hcall, hrest⟩ := List.forall_mem_cons.mp hcalls
      have hstays : call.make ((Piece.action owner record true).build (book.cast free reach)) w =
          (.ok (), (Piece.action owner record true).build (book.cast free reach), w) := by
        cases call with
        | enter => exact absurd rfl hcall
        | _ => rfl
      rw [account, hstays, ih hrest]
      rfl
  enter fired w := rfl

/-- How a wait answers while its slot is empty: it fails and keeps the readings that it has. -/
structure WaitsInVain (c : Cast κ (Estate κ μ)) (owner : Nat) (w : Estate κ μ) : Prop where
  enter : ∀ seconds start now,
    Block.enter ((Piece.wait owner seconds start now).build c) w =
      (.error .actionsNotInitialized, (Piece.wait owner seconds start now).build c, w)
  run : ∀ dt seconds start now,
    Block.run dt ((Piece.wait owner seconds start now).build c) w =
      (.error .actionsNotInitialized, (Piece.wait owner seconds start now).build c, w)

/-- Every wait does while its slot is empty. -/
theorem waitsInVain (book : Playbook κ μ) (free : List Nat) (reach : Reach κ μ) {owner : Nat} {w : Estate κ μ}
    (h : w.host.slot owner = none) : WaitsInVain (book.cast free reach) owner w := by
  have hread : (handle owner).currentTime w = (.error .actionsNotInitialized, w) := by
    rw [currentTime_eq, Recording.currentTime_none h]
  constructor
  case enter =>
    intro seconds start now
    simp only [Piece.build, Playbook.cast, Block.enter, Primitive.enter, hread]
  case run =>
    intro dt seconds start now
    simp only [Piece.build, Playbook.cast, Block.run, Primitive.run, hread]

end Estate

/-- Actions go to the provider of the moment, once each, or fail loudly. Let operations be made in any order on contexts with any roots,
whose blocks come from the builder of any context, and whose callbacks and tests may operate every context that is not in use. Let
neither these nor the host ask a provider to act otherwise than through blocks. Then a ledger in which the firings are entered accounts
for all records, and keeping it changes nothing else: each firing asks the recorder in the slot of its block's context for what the block
says, no other recorder, and ends well, or finds the slot empty, reaches no recorder and fails; between the firings no record is made;
and so the records of every recorder are what the firings delivered to it, in their order. A block that has fired does nothing more until
it is entered again, and a wait whose slot is empty fails and keeps its readings. All operations, those that callbacks and tests ask for
among them, are those of contexts and their trees. -/
theorem actions_accounted {book : Playbook κ μ} (hbook : book.Makes Recording.Quiet) (contexts : List Nat)
    {ops : List (Nat × Operation (Sketch κ) (Recording μ))} (hops : ∀ x ∈ ops, x.2.Makes Recording.Quiet) {host : Recording μ}
    (hhost : host.Sound) (runners : Nat → Runner (Sketch κ)) :
    let plain := Estate.operateAll book contexts ⟨host, runners, none⟩ ops
    let kept := Estate.operateAll book contexts ⟨host, runners, some []⟩ ops
    (∃ ledger, kept = (plain.1, { plain.2 with ledger := some ledger }) ∧
        Balanced host.records ledger plain.2.host.records ∧
        ∀ n, plain.2.host.records n = host.records n ++ ledger.filterMap (·.delivered n)) ∧
      (∀ free owner record, Estate.FiresOnce (book.cast free (Estate.operate book free)) owner record) ∧
      (∀ free owner (w : Estate κ μ), w.host.slot owner = none →
        Estate.WaitsInVain (book.cast free (Estate.operate book free)) owner w) ∧
      ∀ free i op (w : Estate κ μ), i ∈ free → Estate.PerformsAs book free i op w := by
  intro plain kept
  have hstart : Estate.Accords host.records (⟨host, runners, some []⟩ : Estate κ μ) ⟨host, runners, none⟩ :=
    ⟨rfl, rfl, hhost, ⟨[], rfl, rfl⟩, rfl⟩
  obtain ⟨hanswers, haccords⟩ := (Estate.inStep_accords host.records contexts).operateAll hbook hops _ _ hstart
  obtain ⟨ledger, hkept, hbalanced⟩ := haccords.eq
  exact ⟨⟨ledger, Prod.ext hanswers hkept, hbalanced, hbalanced.records⟩, fun free => Estate.firesOnce book free _,
    fun free _ _ => Estate.waitsInVain book free _, fun _ _ op w hi => Estate.operate_performsAs book hi op w⟩

/-! ## Callbacks that operate other contexts -/

/-- What the callbacks of the outing are called. -/
inductive Errand where
  | tour
  | greeting

/-- The tour makes a tick of the second context, asks in vain for one of the first, which is in use, takes the second context's root out,
disposes of that context and empties the slot of the first. The greeting runs a block of the third context and asks in vain for a tick of
the second. Both remember whether they were answered. -/
def errands : Playbook Errand (List Bool) where
  callback
    | .tour =>
      .operate 1 (.process 1.0) fun _ => .operate 0 (.process 1.0) fun answer =>
      .change (Recording.modifyState (· ++ [answer.isSome])) <|
      .operate 1 (.cancel 0) fun _ => .operate 1 .dispose fun _ => .change (Recording.handle 0).clear <| .done (.ok ())
    | .greeting =>
      .operate 2 (.runBlock (.leaf (.action 2 (.say "from within" 1.0) false))) fun _ =>
      .operate 2 (.process 1.0) fun _ => .operate 1 (.process 1.0) fun answer =>
      .change (Recording.modifyState (· ++ [answer.isSome])) <| .done (.ok ())
  test _ := .look fun host _ => .done host.state.isEmpty

/-- The second context has a root whose callback greets. A root of the first says something, makes the tour, and then speaks in vain. -/
def outing : List (Nat × Operation (Sketch Errand) (Recording (List Bool))) :=
  [(0, .host (Recording.installNew 0)), (1, .host (Recording.install 1)), (2, .host (Recording.install 2)),
    (0, .host (Recording.setTime 0 5.0)), (1, .host (Recording.advance 1 1.0)),
    (1, .run [.leaf (.attempt .greeting false), .leaf (.action 1 (.say "late" 1.0) false)]),
    (0, .run [.leaf (.action 0 (.say "first" 1.0) false), .leaf (.attempt .tour false), .leaf (.action 0 (.say "lost" 1.0) false)]),
    (0, .process 1.0), (0, .process 1.0), (0, .process 1.0)]

/-- No recorder notices what the callbacks of the outing change by themselves. -/
theorem errands_quiet : errands.Makes Recording.Quiet where
  callback
    | .tour => ⟨trivial, fun _ => ⟨trivial, fun _ => ⟨Recording.quiet_modifyState _, trivial, fun _ => ⟨trivial, fun _ =>
        ⟨Recording.quiet_clear 0, trivial⟩⟩⟩⟩⟩
    | .greeting => ⟨trivial, fun _ => ⟨trivial, fun _ => ⟨trivial, fun _ => ⟨Recording.quiet_modifyState _, trivial⟩⟩⟩⟩
  test _ _ _ := trivial

/-- Two blocks of the outing reach a recorder, and both nested requests to contexts in use are refused. -/
theorem actions_accounted_outing :
    errands.Makes Recording.Quiet ∧ (∀ x ∈ outing, x.2.Makes Recording.Quiet) ∧ (Recording.new 3 false ([] : List Bool)).Sound ∧
      let plain := Estate.operateAll errands [0, 1, 2] ⟨Recording.new 3 false [], fun _ => ∅, none⟩ outing
      let kept := Estate.operateAll errands [0, 1, 2] ⟨Recording.new 3 false [], fun _ => ∅, some []⟩ outing
      (∃ ledger, kept = (plain.1, { plain.2 with ledger := some ledger }) ∧
        Balanced (Recording.new 3 false ([] : List Bool)).records ledger plain.2.host.records) ∧
        (List.range 4).map (fun n => (plain.2.host.recorder n).messages) = [[], [], ["from within"], ["first"]] ∧
        plain.2.host.state = [false, false] := by
  have houting : ∀ x ∈ outing, x.2.Makes Recording.Quiet := by
    simp only [outing, List.forall_mem_cons]
    exact ⟨Recording.quiet_installNew 0, Recording.quiet_install 1, Recording.quiet_install 2, Recording.quiet_setTime 0 5.0,
      Recording.quiet_advance 1 1.0, fun _ _ => trivial, fun _ _ => trivial, trivial, trivial, trivial, nofun⟩
  have hsound : (Recording.new 3 false ([] : List Bool)).Sound := Recording.sound_new 3 false []
  obtain ⟨⟨ledger, hkept, hbalanced, -⟩, -⟩ := actions_accounted errands_quiet [0, 1, 2] houting hsound fun _ => ∅
  refine ⟨errands_quiet, houting, hsound, ⟨ledger, hkept, hbalanced⟩, ?_, ?_⟩
  · decide +kernel
  · decide +kernel

end BlockScript
