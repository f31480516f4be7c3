import BlockScript.Proofs.Block.Blank
import BlockScript.Proofs.Block.Quiet
import BlockScript.Proofs.Context.Operations

/-!
# Blocks as data

A world that holds contexts cannot hold blocks as they are, since callbacks and tests are functions of the world. A `Sketch` is a tree
of built-in blocks as data: its callbacks and tests are names, and a `Cast` says what each name stands for. A sketch that is `Staged` with
a cast is a block: a call builds the tree that is sketched, calls it, and notes in the sketch the state that the call leaves the tree in.
Nothing is lost or added by this (`Staged.built_mirror`), and casts that respond together make the same of a sketch (`Staged.mirror`).
-/

namespace BlockScript

/-! ## Sketches -/

/-- A leaf as the builder of a context makes it, with the state of its activation. Callbacks and tests are named. -/
inductive Piece (κ : Type) where
  /-- Asks the provider in the slot of the owner to act. -/
  | action (owner : Nat) (record : ActionRecord) (executed : Bool)
  | wait (owner : Nat) (duration start now : Float)
  | attempt (callback : κ) (executed : Bool)
  | condition (test : κ) (result : Bool)

/-- What decides that a loop stops, with a named test. -/
inductive LoopSketch (κ : Type) where
  | forever
  | whileTrue (test : κ)
  | untilTrue (test : κ)

/-- A tree of built-in blocks as data, with its cursors. -/
inductive Sketch (κ : Type) where
  | leaf (piece : Piece κ)
  | sequence (children : List (Sketch κ)) (current : Nat) (entered : Bool)
  | loop (kind : LoopSketch κ) (body : List (Sketch κ)) (current : Nat) (stopped entered : Bool)

/-- What stands behind a sketch: how its actions are performed and through which slots its waits read the clock, and the callbacks and
tests that it names. -/
structure Cast (κ σ : Type) where
  act : Nat → ActionRecord → σ → Outcome × σ
  handle : Nat → ActionsHandle σ
  callback : κ → σ → Outcome × σ
  test : κ → σ → Bool × σ

variable {κ σ τ : Type}

/-- The leaf itself, in the state that is noted. -/
def Piece.build (c : Cast κ σ) : Piece κ → Primitive σ
  | action owner record executed => .execute (c.act owner record) executed
  | wait owner duration start now => .wait duration start now (c.handle owner)
  | attempt callback executed => .execute (c.callback callback) executed
  | condition test result => .condition (c.test test) result

/-- Notes the state of a leaf. -/
def Piece.note : Piece κ → Primitive σ → Piece κ
  | action owner record _, .execute _ executed => action owner record executed
  | wait owner duration _ _, .wait _ start now _ => wait owner duration start now
  | attempt callback _, .execute _ executed => attempt callback executed
  | condition test _, .condition _ result => condition test result
  | p, _ => p

/-- The kind of loop itself. -/
def LoopSketch.build (c : Cast κ σ) : LoopSketch κ → LoopKind σ
  | forever => .forever
  | whileTrue test => .whileTrue (c.test test)
  | untilTrue test => .untilTrue (c.test test)

namespace Sketch

/-- Induction over a sketch: a composite may assume the statement of each of its children. -/
@[elab_as_elim, induction_eliminator]
theorem induct {motive : Sketch κ → Prop} (leaf : ∀ p, motive (leaf p))
    (sequence : ∀ ds i e, (∀ d ∈ ds, motive d) → motive (sequence ds i e))
    (loop : ∀ k ds i s e, (∀ d ∈ ds, motive d) → motive (loop k ds i s e)) (d : Sketch κ) : motive d := by
  refine Sketch.rec (motive_1 := motive) (motive_2 := fun ds => ∀ d ∈ ds, motive d) leaf sequence loop ?_ ?_ d
  · intro d hd
    nomatch hd
  · intro d ds hd hds e he
    rcases List.mem_cons.mp he with rfl | he
    · exact hd
    · exact hds e he

/-- A sequence that has not been entered. -/
def ofList (children : List (Sketch κ)) : Sketch κ := sequence children 0 false

mutual

/-- The tree that is sketched, in the state that is noted. -/
def build (c : Cast κ σ) : Sketch κ → BuiltIn σ
  | leaf p => .leaf (p.build c)
  | sequence ds i e => .sequence (buildAll c ds) i e
  | loop k ds i s e => .loop (k.build c) (buildAll c ds) i s e
termination_by structural d => d

/-- `build` for each sketch of a list. -/
def buildAll (c : Cast κ σ) : List (Sketch κ) → List (BuiltIn σ)
  | [] => []
  | d :: ds => build c d :: buildAll c ds
termination_by structural ds => ds

end

mutual

/-- Notes the state of a tree: its cursors, and the states of its leaves. -/
def note : Sketch κ → BuiltIn σ → Sketch κ
  | leaf p, .leaf b => leaf (p.note b)
  | sequence ds _ _, .sequence ts i e => sequence (noteAll ds ts) i e
  | loop k ds _ _ _, .loop _ ts i s e => loop k (noteAll ds ts) i s e
  | d, _ => d
termination_by structural d => d

/-- `note` for each sketch of a list, with the tree at its index. -/
def noteAll : List (Sketch κ) → List (BuiltIn σ) → List (Sketch κ)
  | d :: ds, t :: ts => note d t :: noteAll ds ts
  | ds, _ => ds
termination_by structural ds => ds

end

/-! ### Nothing is lost -/

/-- Building each sketch of a list. -/
theorem buildAll_eq (c : Cast κ σ) (ds : List (Sketch κ)) : buildAll c ds = ds.map (build c) := by
  induction ds with
  | nil => rfl
  | cons d ds ih => rw [buildAll, ih, List.map_cons]

end Sketch

/-- A leaf that is made of the same as a piece is the leaf of that piece once its state is noted. -/
theorem Piece.build_note (c : Cast κ σ) (p : Piece κ) (b : Primitive σ) (h : b.blank = (p.build c).blank) : (p.note b).build c = b := by
  cases p <;> cases b <;> simp only [build, Primitive.blank, Primitive.execute.injEq, Primitive.wait.injEq, Primitive.condition.injEq,
    reduceCtorEq] at h
  · exact congrArg (Primitive.execute · _) h.1.symm
  · obtain ⟨rfl, -, -, rfl⟩ := h
    rfl
  · exact congrArg (Primitive.execute · _) h.1.symm
  · exact congrArg (Primitive.condition · _) h.1.symm

namespace Sketch

/-- A tree that is made of the same as a sketch is the tree of that sketch once its state is noted. -/
theorem build_note (c : Cast κ σ) (d : Sketch κ) : ∀ t : BuiltIn σ, t.blank = (d.build c).blank → (d.note t).build c = t := by
  have hlists : ∀ {ds : List (Sketch κ)}, (∀ d ∈ ds, ∀ t : BuiltIn σ, t.blank = (d.build c).blank → (d.note t).build c = t) →
      ∀ ts : List (BuiltIn σ), Tree.blankAll Primitive.blank ts = Tree.blankAll Primitive.blank (buildAll c ds) →
        buildAll c (noteAll ds ts) = ts := by
    intro ds hds
    induction ds with
    | nil =>
      intro ts hts
      cases ts with
      | nil => rfl
      | cons t ts => nomatch hts
    | cons d ds ih =>
      intro ts hts
      obtain ⟨hd, hrest⟩ := List.forall_mem_cons.mp hds
      cases ts with
      | nil => nomatch hts
      | cons t ts =>
        obtain ⟨ht, hts⟩ := List.cons_eq_cons.mp hts
        rw [noteAll, buildAll, hd t ht, ih hrest ts hts]
  induction d with
  | leaf p =>
    intro t ht
    cases t with
    | leaf b => exact congrArg Tree.leaf (p.build_note c b (Tree.leaf.inj ht))
    | sequence ts i e => nomatch ht
    | loop k ts i s e => nomatch ht
  | sequence ds i e ih =>
    intro t ht
    cases t with
    | leaf b => nomatch ht
    | sequence ts j f =>
      rw [note, build, hlists ih ts (Tree.sequence.inj ht).1]
    | loop k ts i s e => nomatch ht
  | loop k ds i s e ih =>
    intro t ht
    cases t with
    | leaf b => nomatch ht
    | sequence ts j f => nomatch ht
    | loop l ts j t f =>
      obtain ⟨rfl, hbody, -⟩ := Tree.loop.inj ht
      rw [note, build, hlists ih ts hbody]

end Sketch

/-! ## Staging -/

/-- A sketch as a block, played by a cast. -/
def Staged (_ : Cast κ σ) : Type := Sketch κ

namespace Staged

variable {c : Cast κ σ}

/-- The tree of a sketch that is staged. -/
def built (d : Staged c) : BuiltIn σ := Sketch.build c d

/-- The sketch, with the state of a tree noted. -/
def left (d : Staged c) (t : BuiltIn σ) : Staged c := Sketch.note d t

/-- A sequence that has not been entered. -/
def ofList (children : List (Staged c)) : Staged c := Sketch.ofList children

instance : Block (Staged c) σ where
  create d w := let (t, w) := Tree.create d.built w; (d.left t, w)
  destroy d w := let (t, w) := Tree.destroy d.built w; (d.left t, w)
  enter d w := let (r, t, w) := Tree.enter d.built w; (r, d.left t, w)
  run dt d w := let (r, t, w) := Tree.run dt d.built w; (r, d.left t, w)
  exit d w := let (t, w) := Tree.exit d.built w; (d.left t, w)
  isComplete d w := Tree.isComplete d.built w
  kind d := Tree.kind d.built

/-- The tree of a staged sequence is the sequence of the trees. -/
theorem built_ofList {ds : List (Staged c)} {ts : List (BuiltIn σ)} (h : List.Forall₂ (fun d t => built d = t) ds ts) :
    built (ofList ds) = Tree.ofList ts := by
  have hmap : ds.map built = ts := by rwa [← List.forall₂_map_left_iff (R := Eq), List.forall₂_eq_eq_eq] at h
  have hbuilt : Sketch.buildAll c ds = ds.map built := Sketch.buildAll_eq c ds
  exact congrArg (Tree.sequence · 0 false) (hbuilt.trans hmap)

/-- A call on a staged sketch is the call on the tree that is sketched. -/
theorem built_mirror : Mirror (fun (d : Staged c) (t : BuiltIn σ) => d.built = t) Eq Eq where
  create {d _ w _} h hw := by
    subst h hw
    have hsame : d.built.create w = (d.built, w) := BuiltIn.create_eq d.built w
    refine ⟨Sketch.build_note c d _ ?_, rfl⟩
    exact congrArg (fun x : BuiltIn σ × σ => x.1.blank) hsame
  destroy {d _ w _} h hw := by
    subst h hw
    have hsame : d.built.destroy w = (d.built, w) := BuiltIn.destroy_eq d.built w
    refine ⟨Sketch.build_note c d _ ?_, rfl⟩
    exact congrArg (fun x : BuiltIn σ × σ => x.1.blank) hsame
  enter {d _ w _} h hw := by
    subst h hw
    exact ⟨rfl, Sketch.build_note c d _ (Tree.blank_enter Primitive.blank_lasting _ w), rfl⟩
  run {dt dt'} hdt {d _ w _} h hw := by
    subst hdt h hw
    exact ⟨rfl, Sketch.build_note c d _ (Tree.blank_run Primitive.blank_lasting dt _ w), rfl⟩
  exit {d _ w _} h hw := by
    subst h hw
    exact ⟨Sketch.build_note c d _ (Tree.blank_exit Primitive.blank_lasting _ w), rfl⟩
  isComplete h hw := by
    subst h hw
    rfl

end Staged

/-! ## Casts that respond together -/

/-- All that two casts let a sketch call responds together. -/
structure Cast.Responds (W : σ → τ → Prop) (c : Cast κ σ) (c' : Cast κ τ) : Prop where
  act : ∀ owner record, BlockScript.Responds W (c.act owner record) (c'.act owner record)
  clock : ∀ owner, BlockScript.Responds W (c.handle owner).currentTime (c'.handle owner).currentTime
  callback : ∀ k, BlockScript.Responds W (c.callback k) (c'.callback k)
  test : ∀ k, BlockScript.Responds W (c.test k) (c'.test k)

section

variable {W : σ → τ → Prop} {c : Cast κ σ} {c' : Cast κ τ}

/-- The leaves that casts make of a piece mirror each other. -/
theorem Piece.build_mirrors (h : c.Responds W c') (p : Piece κ) : Primitive.Mirrors W (p.build c) (p.build c') := by
  cases p with
  | action owner record executed => exact .execute executed (h.act owner record)
  | wait owner duration start now => exact .wait duration start now (h.clock owner)
  | attempt callback executed => exact .execute executed (h.callback callback)
  | condition test result => exact .condition result (h.test test)

/-- The loops that casts make of a sketched one respond together. -/
theorem LoopSketch.build_responds (h : c.Responds W c') (k : LoopSketch κ) :
    Responds W (k.build c).shouldExit (k.build c').shouldExit := by
  cases k with
  | forever => exact fun w v hw => ⟨rfl, hw⟩
  | whileTrue test =>
    intro w v hw
    obtain ⟨hanswer, hworld⟩ := h.test test w v hw
    exact ⟨congrArg not hanswer, hworld⟩
  | untilTrue test => exact h.test test

/-- Trees whose leaves and loops respond together in related worlds. -/
abbrev TreesRespond (W : σ → τ → Prop) : BuiltIn σ → BuiltIn τ → Prop :=
  Tree.Mirrors (Primitive.Mirrors W) fun k l => Responds W k.shouldExit l.shouldExit

namespace Sketch

/-- The trees that casts make of a sketch mirror each other. -/
theorem build_mirrors (h : c.Responds W c') (d : Sketch κ) : TreesRespond W (d.build c) (d.build c') := by
  have hlists : ∀ {ds : List (Sketch κ)}, (∀ d ∈ ds, TreesRespond W (d.build c) (d.build c')) →
      List.Forall₂ (TreesRespond W) (buildAll c ds) (buildAll c' ds) := by
    intro ds hds
    rw [buildAll_eq, buildAll_eq, List.forall₂_map_left_iff, List.forall₂_map_right_iff]
    exact List.forall₂_same.mpr hds
  induction d with
  | leaf p => exact .leaf (p.build_mirrors h)
  | sequence ds i e ih => exact .sequence (hlists ih)
  | loop k ds i s e ih => exact .loop (k.build_responds h) (hlists ih)

/-- The same state is noted of trees that mirror each other. -/
theorem note_eq (d : Sketch κ) : ∀ {t : BuiltIn σ} {u : BuiltIn τ}, TreesRespond W t u → d.note t = d.note u := by
  have hlists : ∀ {ds : List (Sketch κ)}, (∀ d ∈ ds, ∀ {t : BuiltIn σ} {u : BuiltIn τ}, TreesRespond W t u → d.note t = d.note u) →
      ∀ {ts : List (BuiltIn σ)} {us : List (BuiltIn τ)}, List.Forall₂ (TreesRespond W) ts us → noteAll ds ts = noteAll ds us := by
    intro ds hds
    induction ds with
    | nil => exact fun _ => rfl
    | cons d ds ih =>
      obtain ⟨hd, hrest⟩ := List.forall_mem_cons.mp hds
      rintro _ _ (_ | ⟨htu, htus⟩)
      · rfl
      · rw [noteAll, noteAll, hd htu, ih hrest htus]
  induction d with
  | leaf p =>
    rintro _ _ (hbc | _ | _)
    · rw [note, note]
      cases hbc <;> cases p <;> rfl
    · rfl
    · rfl
  | sequence ds i e ih =>
    rintro _ _ (_ | htus | _)
    · rfl
    · rw [note, note, hlists ih htus]
    · rfl
  | loop k ds i s e ih =>
    rintro _ _ (_ | _ | ⟨-, htus⟩)
    · rfl
    · rfl
    · rw [note, note, hlists ih htus]

end Sketch

/-- Trees that respond together do so in every call. -/
theorem treesRespond_mirror : Mirror (TreesRespond W) W Eq := Tree.mirror Primitive.mirror fun _ _ hk => hk

/-- A sketch is played alike by casts that respond together, and the same is noted of it. -/
theorem Staged.mirror (h : c.Responds W c') : Mirror (fun (d : Staged c) (e : Staged c') => @Eq (Sketch κ) d e) W Eq where
  create {d _ _ _} hde hw := by
    subst hde
    obtain ⟨htrees, hworld⟩ := treesRespond_mirror.create (Sketch.build_mirrors h d) hw
    exact ⟨Sketch.note_eq d htrees, hworld⟩
  destroy {d _ _ _} hde hw := by
    subst hde
    obtain ⟨htrees, hworld⟩ := treesRespond_mirror.destroy (Sketch.build_mirrors h d) hw
    exact ⟨Sketch.note_eq d htrees, hworld⟩
  enter {d _ _ _} hde hw := by
    subst hde
    obtain ⟨hanswer, htrees, hworld⟩ := treesRespond_mirror.enter (Sketch.build_mirrors h d) hw
    exact ⟨hanswer, Sketch.note_eq d htrees, hworld⟩
  run {dt dt'} hdt {d _ _ _} hde hw := by
    subst hde
    obtain ⟨hanswer, htrees, hworld⟩ := treesRespond_mirror.run hdt (Sketch.build_mirrors h d) hw
    exact ⟨hanswer, Sketch.note_eq d htrees, hworld⟩
  exit {d _ _ _} hde hw := by
    subst hde
    obtain ⟨htrees, hworld⟩ := treesRespond_mirror.exit (Sketch.build_mirrors h d) hw
    exact ⟨Sketch.note_eq d htrees, hworld⟩
  isComplete {d _ _ _} hde hw := by
    subst hde
    exact treesRespond_mirror.isComplete (Sketch.build_mirrors h d) hw

end

end BlockScript
