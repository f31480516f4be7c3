import BlockScript.Block.Contract

/-!
# Owners

What the owner of a block can do with it under the block contract, and all that it learns from it. A series of calls is made, each in
a world of its own, since anything may happen to the world between two calls. `account` lists how each call ended, the world it left
behind and whether the block then reads complete. Two blocks between which no owner can tell have the same account of every series
(`account_eq`).
-/

namespace BlockScript

/-- A call that an owner makes on a block. -/
inductive OwnerCall where
  | create
  | destroy
  | enter
  | run (dt : Float)
  | exit

/-- What an owner learns from a call: how it ended, the world it left behind, and whether the block then reads complete. -/
structure Reply (σ : Type v) where
  outcome : Outcome
  world : σ
  complete : Bool

namespace OwnerCall

/-- Makes the call. A call that cannot fail ends well. -/
def make {β : Type u} {σ : Type v} [Block β σ] : OwnerCall → β → σ → Outcome × β × σ
  | create, b, w => (.ok (), Block.create b w)
  | destroy, b, w => (.ok (), Block.destroy b w)
  | enter, b, w => Block.enter b w
  | run dt, b, w => Block.run dt b w
  | exit, b, w => (.ok (), Block.exit b w)

/-- Whether the contract allows the call, by whether the block is active, that is entered and not exited. -/
def Allowed : OwnerCall → Bool → Prop
  | create, active => active = false
  | destroy, active => active = false
  | enter, active => active = false
  | run _, active => active = true
  | exit, active => active = true

/-- Whether the block is active after the call, by how the call ended. -/
def leavesActive : OwnerCall → Outcome → Bool
  | enter, r => r.isOk
  | run _, _ => true
  | _, _ => false

end OwnerCall

section

variable {β : Type u} {γ : Type u'} {σ : Type v} [Block β σ] [Block γ σ]

/-- The owner keeps the block contract in a series of calls. A block that is not active may be entered, and entered again where that
failed; one that is active may be run, however its runs end, and exited at any moment. How often a block that is not active is created
and destroyed is left open. -/
def KeepsContract : Bool → List (OwnerCall × σ) → β → Prop
  | _, [], _ => True
  | active, (call, w) :: calls, b =>
    call.Allowed active ∧ KeepsContract (call.leavesActive (call.make b w).1) calls (call.make b w).2.1

/-- What the owner learns from a series of calls. -/
def account : List (OwnerCall × σ) → β → List (Reply σ)
  | [], _ => []
  | (call, w) :: calls, b =>
    ⟨(call.make b w).1, (call.make b w).2.2, Block.isComplete (call.make b w).2.1 (call.make b w).2.2⟩ ::
      account calls (call.make b w).2.1

/-- A call on two blocks ends alike, leaves the same world, and leaves blocks that read complete alike and are related. -/
structure EndAlike (R : β → γ → Prop) (x : Outcome × β × σ) (y : Outcome × γ × σ) : Prop where
  outcome : x.1 = y.1
  world : x.2.2 = y.2.2
  complete : Block.isComplete x.2.1 x.2.2 = Block.isComplete y.2.1 y.2.2
  block : R x.2.1 y.2.1

/-- No owner that keeps the contract can tell between two blocks, if every call that it allows ends alike on both. -/
theorem account_eq {R : Bool → β → γ → Prop}
    (h : ∀ active b c, R active b c → ∀ call : OwnerCall, call.Allowed active → ∀ w,
      EndAlike (R (call.leavesActive (call.make b w).1)) (call.make b w) (call.make c w))
    (calls : List (OwnerCall × σ)) {active : Bool} {b : β} {c : γ} (hbc : R active b c)
    (hcalls : KeepsContract active calls b) : account calls b = account calls c := by
  induction calls generalizing active b c with
  | nil => rfl
  | cons x calls ih =>
    obtain ⟨call, w⟩ := x
    obtain ⟨hallowed, hrest⟩ := hcalls
    have hend := h active b c hbc call hallowed w
    have hsame := ih hend.block hrest
    rw [account, account, hend.complete, hend.outcome, hend.world, hsame]

end

end BlockScript
