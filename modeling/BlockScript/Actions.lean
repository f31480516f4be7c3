import BlockScript.Block.Contract

/-!
# Actions

What a host can do for blocks, and the handle through which they reach it. All blocks built from one context share one handle,
so installing or clearing a provider is seen by all of them. Using an empty handle is an error, never a silent no-op.
-/

namespace BlockScript

/-- What a host does for the blocks of a world `σ`. -/
structure Provider (σ : Type v) where
  /-- Writes a message to the log. -/
  log : String → σ → σ
  /-- Shows a message for a number of seconds. -/
  say : String → Float → σ → σ
  /-- Plays a sound at a volume. -/
  playSound : String → Float → σ → σ
  /-- Reads the clock, in seconds. -/
  now : σ → Float × σ

/-- A slot of the world that may hold a provider. -/
structure ActionsHandle (σ : Type v) where
  /-- The provider that the slot holds. -/
  provider? : σ → Option (Provider σ)
  /-- Empties the slot. -/
  clear : σ → σ

namespace ActionsHandle

variable {σ : Type v}

/-- Whether the slot holds a provider. -/
def isInstalled (h : ActionsHandle σ) (w : σ) : Bool := (h.provider? w).isSome

/-- Lets the provider of the moment act. -/
def act (h : ActionsHandle σ) (action : Provider σ → σ → σ) (w : σ) : Outcome × σ :=
  match h.provider? w with
  | none => (.error .actionsNotInitialized, w)
  | some p => (.ok (), action p w)

/-- The clock of the provider of the moment. -/
def currentTime (h : ActionsHandle σ) (w : σ) : Except BlockError Float × σ :=
  match h.provider? w with
  | none => (.error .actionsNotInitialized, w)
  | some p => let (t, w) := p.now w; (.ok t, w)

/-- A handle as it is shown for inspection. -/
def debugText (h : ActionsHandle σ) (w : σ) : String :=
  "ActionsHandle \x7b installed: " ++ toString (h.isInstalled w) ++ " \x7d"

end ActionsHandle

end BlockScript
