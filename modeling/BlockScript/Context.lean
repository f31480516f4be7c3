import BlockScript.Actions
import BlockScript.Block.Tree
import BlockScript.Runner

/-!
# Contexts

A context is one independent runtime: a handle to a slot of the world, through which its blocks act, and a runner for its
roots. Contexts with different slots share nothing.
-/

namespace BlockScript

/-- A runtime for trees over leaves `α` in a world `σ`. -/
structure Context (α : Type u) (σ : Type v) where
  actions : ActionsHandle σ
  runner : Runner (Tree α σ)

namespace Context

variable {α : Type u} {σ : Type v} [Block α σ]

/-- A context without roots. -/
def new (actions : ActionsHandle σ) : Context α σ := ⟨actions, ∅⟩

/-- Registers a block as a root. -/
def runBlock (c : Context α σ) (b : Tree α σ) (w : σ) : Except BlockError Nat × Context α σ × σ :=
  let (answer, runner, w) := c.runner.add b w
  (answer, { c with runner }, w)

/-- Runs blocks one after another as a new root. -/
def run (c : Context α σ) (blocks : List (Tree α σ)) (w : σ) : Except BlockError Nat × Context α σ × σ :=
  c.runBlock (.ofList blocks) w

/-- One tick of all roots. -/
def process (c : Context α σ) (dt : Float) (w : σ) : Outcome × Context α σ × σ :=
  let (outcome, runner, w) := c.runner.process dt w
  (outcome, { c with runner }, w)

/-- Takes a root out before it completes. -/
def cancel (c : Context α σ) (id : Nat) (w : σ) : Bool × Context α σ × σ :=
  let (found, runner, w) := c.runner.cancel id w
  (found, { c with runner }, w)

/-- Drops all roots without exiting them and empties the handle. -/
def dispose (c : Context α σ) (w : σ) : Context α σ × σ :=
  ({ c with runner := c.runner.dispose }, c.actions.clear w)

/-- A context as it is shown for inspection. -/
def debugText (c : Context α σ) (w : σ) : String :=
  "Context \x7b actions: " ++ c.actions.debugText w ++ ", runner: " ++ c.runner.debugText ++ " \x7d"

end Context

end BlockScript
