import BlockScript.Block.Contract

/-!
# The runner

A runner owns the active root blocks and advances each of them once per tick, newest first. A block in the runner has been
entered and not yet exited. Roots have ids that are never used twice.
-/

namespace BlockScript

/-- The active roots with their ids, oldest first, and the id of the next root. -/
structure Runner (β : Type u) where
  roots : List (Nat × β)
  nextId : Nat
  deriving Inhabited

namespace Runner

variable {β : Type u} {σ : Type v} [Block β σ]

/-- The runner without roots. -/
def empty : Runner β := ⟨[], 0⟩

instance : EmptyCollection (Runner β) := ⟨empty⟩

/-- Creates and enters a block and registers it as the newest root. A block that cannot be entered is dropped, and its id stays
free. -/
def add (r : Runner β) (b : β) (w : σ) : Except BlockError Nat × Runner β × σ :=
  let (b, w) := Block.create b w
  match Block.enter b w with
  | (.error e, _, w) => (.error e, r, w)
  | (.ok (), b, w) => (.ok r.nextId, ⟨r.roots ++ [(r.nextId, b)], r.nextId + 1⟩, w)

/-- Exits and destroys a block that leaves the runner. -/
def retire (b : β) (w : σ) : σ :=
  let (b, w) := Block.exit b w
  (Block.destroy b w).2

/-- Advances each root of a list once, the last one first, and takes out those that complete. The first failure ends the tick:
the failing root stays, and the roots before it are not touched. -/
def advance (dt : Float) : List (Nat × β) → σ → Outcome × List (Nat × β) × σ
  | [], w => (.ok (), [], w)
  | (id, b) :: newer, w =>
    match advance dt newer w with
    | (.error e, newer, w) => (.error e, (id, b) :: newer, w)
    | (.ok (), newer, w) =>
      match Block.run dt b w with
      | (.error e, b, w) => (.error e, (id, b) :: newer, w)
      | (.ok (), b, w) =>
        if Block.isComplete b w then (.ok (), newer, retire b w)
        else (.ok (), (id, b) :: newer, w)

/-- One tick. -/
def process (r : Runner β) (dt : Float) (w : σ) : Outcome × Runner β × σ :=
  let (outcome, roots, w) := advance dt r.roots w
  (outcome, { r with roots }, w)

/-- Whether a root is active. -/
def contains (r : Runner β) (id : Nat) : Bool := r.roots.any (·.1 == id)

/-- Takes a root out before it completes, answering whether it was active. -/
def cancel (r : Runner β) (id : Nat) (w : σ) : Bool × Runner β × σ :=
  match r.roots.find? (·.1 == id) with
  | none => (false, r, w)
  | some (_, b) => (true, { r with roots := r.roots.eraseP (·.1 == id) }, retire b w)

/-- Drops every root without exiting it. Ids go on from where they were. -/
def dispose (r : Runner β) : Runner β := { r with roots := [] }

/-- The count of active roots. -/
def size (r : Runner β) : Nat := r.roots.length

/-- Whether no root is active. -/
def isIdle (r : Runner β) : Bool := r.roots.isEmpty

/-- A runner as it is shown for inspection. -/
def debugText (r : Runner β) : String :=
  let root := fun (x : Nat × β) => "(" ++ toString x.1 ++ ", \"" ++ Block.kind x.2 ++ "\")"
  "BlockRunner \x7b blocks: [" ++ ", ".intercalate (r.roots.map root) ++ "] \x7d"

end Runner

/-- The text of a root's id. -/
def rootText (id : Nat) : String := "#" ++ toString id

end BlockScript
