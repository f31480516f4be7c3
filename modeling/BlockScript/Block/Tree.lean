import BlockScript.Block.Contract

/-!
# Trees of blocks

Sequences and loops over leaves of any kind. A sequence runs its children one after another; a loop runs its body until its
test says to stop. One call of `Tree.run` advances one leaf at most: a child that completes is exited and its successor entered
in the same tick, but the successor first runs in the next one. A child that could not be entered is entered again in the next
tick instead of being run.
-/

namespace BlockScript

/-- What decides that a loop stops. A test may change the world it reads. -/
inductive LoopKind (σ : Type v) where
  /-- Never stops. -/
  | forever
  /-- Stops once the test reads false. -/
  | whileTrue (test : σ → Bool × σ)
  /-- Stops once the test reads true. -/
  | untilTrue (test : σ → Bool × σ)

namespace LoopKind

variable {σ : Type v}

/-- Asks whether to stop. -/
def shouldExit : LoopKind σ → σ → Bool × σ
  | forever, w => (false, w)
  | whileTrue test, w => let (b, w) := test w; (!b, w)
  | untilTrue test, w => test w

/-- The name of the kind of loop. -/
def name : LoopKind σ → String
  | forever => "repeat_forever"
  | whileTrue _ => "repeat_while_true"
  | untilTrue _ => "repeat_until_true"

end LoopKind

/-- A tree of blocks over leaves `α` in a world `σ`. The cursor `current` is the index of the active child, and `entered` says
whether that child has been entered and not exited. -/
inductive Tree (α : Type u) (σ : Type v) where
  | leaf (block : α)
  | sequence (children : List (Tree α σ)) (current : Nat) (entered : Bool)
  | loop (kind : LoopKind σ) (body : List (Tree α σ)) (current : Nat) (stopped entered : Bool)

namespace Tree

variable {α : Type u} {σ : Type v} [Block α σ]

mutual

/-- Tells every leaf of the tree, in order, that it is about to be used. -/
def create : Tree α σ → σ → Tree α σ × σ
  | leaf b, w => let (b, w) := Block.create b w; (leaf b, w)
  | sequence cs i e, w => let (cs, w) := createAll cs w; (sequence cs i e, w)
  | loop k cs i s e, w => let (cs, w) := createAll cs w; (loop k cs i s e, w)
termination_by structural t => t

/-- `create` for each tree of a list, in order. -/
def createAll : List (Tree α σ) → σ → List (Tree α σ) × σ
  | [], w => ([], w)
  | c :: cs, w =>
    let (c, w) := create c w
    let (cs, w) := createAll cs w
    (c :: cs, w)
termination_by structural cs => cs

end

mutual

/-- Tells every leaf of the tree, in order, that it is no longer used. -/
def destroy : Tree α σ → σ → Tree α σ × σ
  | leaf b, w => let (b, w) := Block.destroy b w; (leaf b, w)
  | sequence cs i e, w => let (cs, w) := destroyAll cs w; (sequence cs i e, w)
  | loop k cs i s e, w => let (cs, w) := destroyAll cs w; (loop k cs i s e, w)
termination_by structural t => t

/-- `destroy` for each tree of a list, in order. -/
def destroyAll : List (Tree α σ) → σ → List (Tree α σ) × σ
  | [], w => ([], w)
  | c :: cs, w =>
    let (c, w) := destroy c w
    let (cs, w) := destroyAll cs w
    (c :: cs, w)
termination_by structural cs => cs

end

/-- Whether an attempt to enter the child at an index left a child entered: the attempt was a success and there is such a
child. -/
def entered (outcome : Outcome) (children : List (Tree α σ)) (index : Nat) : Bool :=
  outcome.isOk && decide (index < children.length)

mutual

/-- Starts an activation from the first child. A loop asks its test before anything is entered. -/
def enter : Tree α σ → σ → Outcome × Tree α σ × σ
  | leaf b, w => let (r, b, w) := Block.enter b w; (r, leaf b, w)
  | sequence cs _ _, w =>
    let (r, cs, w) := enterAt cs 0 w
    (r, sequence cs 0 (entered r cs 0), w)
  | loop k cs _ _ _, w =>
    let (stop, w) := k.shouldExit w
    if stop then (.ok (), loop k cs 0 true false, w)
    else
      let (r, cs, w) := enterAt cs 0 w
      (r, loop k cs 0 false (entered r cs 0), w)
termination_by structural t => t

/-- Enters the child at an index; nothing happens where there is none. -/
def enterAt : List (Tree α σ) → Nat → σ → Outcome × List (Tree α σ) × σ
  | [], _, w => (.ok (), [], w)
  | c :: cs, 0, w => let (r, c, w) := enter c w; (r, c :: cs, w)
  | c :: cs, i + 1, w => let (r, cs, w) := enterAt cs i w; (r, c :: cs, w)
termination_by structural cs => cs

end

mutual

/-- Ends the activation of the child that is entered, if one is. -/
def exit : Tree α σ → σ → Tree α σ × σ
  | leaf b, w => let (b, w) := Block.exit b w; (leaf b, w)
  | sequence cs i e, w =>
    if e then
      let (cs, w) := exitAt cs i w
      (sequence cs i false, w)
    else (sequence cs i e, w)
  | loop k cs i s e, w =>
    if e then
      let (cs, w) := exitAt cs i w
      (loop k cs i s false, w)
    else (loop k cs i s e, w)
termination_by structural t => t

/-- Exits the child at an index; nothing happens where there is none. -/
def exitAt : List (Tree α σ) → Nat → σ → List (Tree α σ) × σ
  | [], _, w => ([], w)
  | c :: cs, 0, w => let (c, w) := exit c w; (c :: cs, w)
  | c :: cs, i + 1, w => let (cs, w) := exitAt cs i w; (c :: cs, w)
termination_by structural cs => cs

end

/-- Whether the activation has finished: a sequence is past its last child, a loop was told to stop. -/
def isComplete : Tree α σ → σ → Bool
  | leaf b, w => Block.isComplete b w
  | sequence cs i _, _ => decide (cs.length ≤ i)
  | loop _ _ _ s _, _ => s

/-- The index of the active child of a composite, which for a sequence that has finished is the number of its children. A leaf
has no children and reads nought. -/
def current : Tree α σ → Nat
  | leaf _ => 0
  | sequence _ i _ => i
  | loop _ _ i _ _ => i

mutual

/-- Advances by one tick. -/
def run (dt : Float) : Tree α σ → σ → Outcome × Tree α σ × σ
  | leaf b, w => let (r, b, w) := Block.run dt b w; (r, leaf b, w)
  | sequence cs i e, w =>
    if cs.length ≤ i then (.ok (), sequence cs i e, w)
    else if !e then
      let (r, cs, w) := enterAt cs i w
      (r, sequence cs i (entered r cs i), w)
    else
      match runAt dt cs i w with
      | (.error err, cs, w) => (.error err, sequence cs i true, w)
      | (.ok false, cs, w) => (.ok (), sequence cs i true, w)
      | (.ok true, cs, w) =>
        let (r, cs, w) := enterAt cs (i + 1) w
        (r, sequence cs (i + 1) (entered r cs (i + 1)), w)
  | loop k cs i s e, w =>
    if s || cs.isEmpty then (.ok (), loop k cs i s e, w)
    else
      let (stop, w) := k.shouldExit w
      if stop then (.ok (), loop k cs i true e, w)
      else if !e then
        let (r, cs, w) := enterAt cs i w
        (r, loop k cs i false (entered r cs i), w)
      else
        match runAt dt cs i w with
        | (.error err, cs, w) => (.error err, loop k cs i false true, w)
        | (.ok false, cs, w) => (.ok (), loop k cs i false true, w)
        | (.ok true, cs, w) =>
          if i + 1 < cs.length then
            let (r, cs, w) := enterAt cs (i + 1) w
            (r, loop k cs (i + 1) false (entered r cs (i + 1)), w)
          else
            let (stop, w) := k.shouldExit w
            if stop then (.ok (), loop k cs (i + 1) true false, w)
            else
              let (r, cs, w) := enterAt cs 0 w
              (r, loop k cs 0 false (entered r cs 0), w)
termination_by structural t => t

/-- Runs the child at an index and exits it if it is then complete, which the answer tells; nothing happens where there is no
such child. -/
def runAt (dt : Float) : List (Tree α σ) → Nat → σ → Except BlockError Bool × List (Tree α σ) × σ
  | [], _, w => (.ok false, [], w)
  | c :: cs, 0, w =>
    match run dt c w with
    | (.error err, c, w) => (.error err, c :: cs, w)
    | (.ok (), c, w) =>
      if isComplete c w then
        let (c, w) := exit c w
        (.ok true, c :: cs, w)
      else (.ok false, c :: cs, w)
  | c :: cs, i + 1, w => let (r, cs, w) := runAt dt cs i w; (r, c :: cs, w)
termination_by structural cs => cs

end

/-- The name of the kind of block. -/
def kind : Tree α σ → String
  | leaf b => Block.kind b
  | sequence .. => "sequence"
  | loop k .. => k.name

instance : Block (Tree α σ) σ where
  create := create
  destroy := destroy
  enter := enter
  run := run
  exit := exit
  isComplete := isComplete
  kind := kind

/-- A sequence that has not been entered. -/
def ofList (children : List (Tree α σ)) : Tree α σ := sequence children 0 false

/-- A loop that has not been entered. -/
def repeating (kind : LoopKind σ) (body : List (Tree α σ)) : Tree α σ := loop kind body 0 false false

end Tree

end BlockScript
