/-!
# The block contract

A block is a small state machine that its owner advances once per tick. `Block β σ` says what the members of a type `β` do to a
world `σ`: everything a block can see or change outside itself. Within one activation the owner calls `enter`, then `run` any
number of times, asking `isComplete` after each, and at last `exit`. `create` comes before the first activation and `destroy`
after the last.
-/

namespace BlockScript

/-- Why a block could not be entered or run. -/
inductive BlockError where
  /-- An actions handle was used while no provider was installed in it. -/
  | actionsNotInitialized
  /-- A callback reported a failure. -/
  | callback (text : String)
  deriving DecidableEq, Repr

/-- The wording of a block's failure. -/
def BlockError.message : BlockError → String
  | .actionsNotInitialized => "actions not initialized: install an actions provider before running blocks"
  | .callback text => "callback failed: " ++ text

/-- How a call that may fail ended. -/
abbrev Outcome := Except BlockError Unit

/-- What the blocks of a type do. A call answers the block and the world as it leaves them, also where it fails. -/
class Block (β : Type u) (σ : outParam (Type v)) where
  /-- Called once, before the first activation. -/
  create : β → σ → β × σ
  /-- Called once, after the last activation. -/
  destroy : β → σ → β × σ
  /-- Starts an activation. -/
  enter : β → σ → Outcome × β × σ
  /-- Advances by one tick of the given length in seconds. -/
  run : Float → β → σ → Outcome × β × σ
  /-- Ends an activation, finished or not. -/
  exit : β → σ → β × σ
  /-- Whether the activation has finished: a pure reading, asked after a run. -/
  isComplete : β → σ → Bool
  /-- The name of the kind of block. -/
  kind : β → String

end BlockScript
