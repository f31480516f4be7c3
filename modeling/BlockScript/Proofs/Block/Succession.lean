import BlockScript.Proofs.Block.Polling
import Mathlib.Data.List.Induction
import Mathlib.Logic.Function.Iterate

/-!
# The succession of children

What happens to the children of a sequence or a loop, as a trail of moves: a child is entered, which may take several attempts, stepped
until it has finished, and left, and then its successor is due (`ChildMove`, `ChildTrail`). Of the calls of one activation that make
such a trail, `Succession` says in what order they take the children, and `ChildTrail.succession` reads it off the trail. That the
calls on sequences and loops make such trails is not shown here.
-/

namespace BlockScript

/-! ## Trails of children -/

/-- How far the owner of some children has come. -/
inductive ChildPhase where
  /-- The child is the next to be entered, if there is such a child. -/
  | due (child : Nat)
  | inside (child : Nat)
  /-- The child has finished and is still to be left. -/
  | finished (child : Nat)
  /-- The child was left before it finished. -/
  | abandoned (child : Nat)

/-- The child that is at hand or comes next. -/
def ChildPhase.upcoming (next : Nat → Nat) : ChildPhase → Nat
  | due i => i
  | inside i => i
  | finished i => next i
  | abandoned i => i

namespace Incident

/-- Something happens to a child; the test of a loop is none. -/
def onChild : Incident → Bool
  | asked _ => false
  | _ => true

/-- The child that finished: its run ended well and it then read complete. -/
def finisher? : Incident → Option Nat
  | stepped i (.ok ()) true => some i
  | _ => none

/-- A step of a child that does not finish it. -/
def Unfinished (i : Nat) (x : Incident) : Prop := ∃ r complete, x = .stepped i r complete ∧ ¬(r = .ok () ∧ complete = true)

theorem Unfinished.finisher?_eq {i : Nat} {x : Incident} (h : x.Unfinished i) : x.finisher? = none := by
  obtain ⟨e | ⟨⟩, _ | _, rfl, hne⟩ := h
  · rfl
  · rfl
  · rfl
  · exact absurd ⟨rfl, rfl⟩ hne

end Incident

/-- What can happen to the children next, if `next` tells the successor of a child. -/
inductive ChildMove (next : Nat → Nat) : ChildPhase → Incident → ChildPhase → Prop where
  | refused (i : Nat) (e : BlockError) : ChildMove next (.due i) (.entered i (.error e)) (.due i)
  | entered (i : Nat) : ChildMove next (.due i) (.entered i (.ok ())) (.inside i)
  | stepped {i : Nat} {x : Incident} : x.Unfinished i → ChildMove next (.inside i) x (.inside i)
  | finished (i : Nat) : ChildMove next (.inside i) (.stepped i (.ok ()) true) (.finished i)
  | left (i : Nat) : ChildMove next (.finished i) (.left i) (.due (next i))
  | abandoned (i : Nat) : ChildMove next (.inside i) (.left i) (.abandoned i)

/-- An incident leads from a phase to one other at most. -/
theorem ChildMove.unique {next : Nat → Nat} {p p' p'' : ChildPhase} {x : Incident} (h : ChildMove next p x p')
    (h' : ChildMove next p x p'') : p' = p'' := by
  cases h with
  | refused | entered | left => cases h'; rfl
  | stepped hx =>
    obtain ⟨r, complete, rfl, hne⟩ := hx
    cases h' with
    | stepped => rfl
    | finished => exact absurd ⟨rfl, rfl⟩ hne
  | finished =>
    cases h' with
    | stepped hx =>
      obtain ⟨r, complete, heq, hne⟩ := hx
      cases heq
      exact absurd ⟨rfl, rfl⟩ hne
    | finished => rfl
  | abandoned =>
    cases h' with
    | stepped hx =>
      obtain ⟨_, _, heq, -⟩ := hx
      nomatch heq
    | abandoned => rfl

/-- A series of such moves, from the first child on. -/
inductive ChildTrail (next : Nat → Nat) : List Incident → ChildPhase → Prop where
  | nil : ChildTrail next [] (.due 0)
  | snoc {log : List Incident} {p p' : ChildPhase} {x : Incident} : ChildTrail next log p → ChildMove next p x p' →
      ChildTrail next (log ++ [x]) p'

/-- The children that finished, in order. -/
def finishers (log : List Incident) : List Nat := log.filterMap (·.finisher?)

/-- A child that was entered and has only been stepped without finishing since. -/
def Open (i : Nat) (log : List Incident) : Prop :=
  ∃ earlier steps, log = earlier ++ .entered i (.ok ()) :: steps ∧ ∀ x ∈ steps, x.Unfinished i

/-- A child was entered, stepped until it finished, and left, and nothing has happened since. -/
def Passed (i : Nat) (log : List Incident) : Prop :=
  ∃ before, Open i before ∧ log = before ++ [.stepped i (.ok ()) true, .left i]

namespace ChildTrail

variable {next : Nat → Nat} {log later : List Incident} {p : ChildPhase} {x : Incident}

/-- The last move of a trail. -/
theorem last (h : ChildTrail next (log ++ [x]) p) : ∃ p', ChildTrail next log p' ∧ ChildMove next p' x p := by
  generalize hlog : log ++ [x] = full at h
  cases h with
  | nil => simp at hlog
  | snoc h hmove =>
    obtain ⟨rfl, hx⟩ := List.append_inj' hlog rfl
    cases hx
    exact ⟨_, h, hmove⟩

/-- What came before a moment of a trail is a trail. -/
theorem before (h : ChildTrail next (log ++ later) p) : ∃ p', ChildTrail next log p' := by
  induction later using List.reverseRecOn generalizing p with
  | nil => exact ⟨p, by rwa [List.append_nil] at h⟩
  | append_singleton later x ih =>
    rw [← List.append_assoc] at h
    obtain ⟨p', h', -⟩ := h.last
    exact ih h'

/-- The phases around a moment of a trail. -/
theorem at_moment (h : ChildTrail next (log ++ x :: later) p) :
    ∃ p₁ p₂, ChildTrail next log p₁ ∧ ChildMove next p₁ x p₂ ∧ ChildTrail next (log ++ [x]) p₂ := by
  rw [List.append_cons] at h
  obtain ⟨p₂, h₂⟩ := h.before
  obtain ⟨p₁, h₁, hmove⟩ := h₂.last
  exact ⟨p₁, p₂, h₁, hmove, h₂⟩

/-- What has happened tells the phase. -/
theorem unique {p' : ChildPhase} (h : ChildTrail next log p) (h' : ChildTrail next log p') : p = p' := by
  induction h generalizing p' with
  | nil =>
    generalize hnil : ([] : List Incident) = none at h'
    cases h' with
    | nil => rfl
    | snoc => simp at hnil
  | snoc _ hmove ih =>
    obtain ⟨p₁, h₁, hmove'⟩ := h'.last
    obtain rfl := ih h₁
    exact hmove.unique hmove'

/-- Inside a child, that child has been entered last and not been left. -/
theorem inside_open {i : Nat} (h : ChildTrail next log (.inside i)) : Open i log := by
  generalize hp : ChildPhase.inside i = p at h
  induction h with
  | nil => nomatch hp
  | @snoc log p p' x _ hmove ih =>
    cases hmove with
    | entered j =>
      cases hp
      exact ⟨log, [], rfl, List.forall_mem_nil _⟩
    | stepped hx =>
      cases hp
      obtain ⟨earlier, steps, rfl, hsteps⟩ := ih rfl
      exact ⟨earlier, steps ++ [x], by simp, List.forall_mem_append.mpr ⟨hsteps, List.forall_mem_singleton.mpr hx⟩⟩
    | refused | finished | left | abandoned => nomatch hp

/-- A child that has just finished was open before. -/
theorem finished_open {i : Nat} (h : ChildTrail next log (.finished i)) :
    ∃ before, Open i before ∧ log = before ++ [.stepped i (.ok ()) true] := by
  cases h with
  | snoc h hmove =>
    cases hmove with
    | finished j => exact ⟨_, h.inside_open, rfl⟩

/-- A child is due at the beginning, after an attempt to enter it that failed, and after the child that it succeeds has passed. -/
theorem due_cases {j : Nat} (h : ChildTrail next log (.due j)) : (log = [] ∧ j = 0) ∨
    (∃ e earlier, log = earlier ++ [.entered j (.error e)]) ∨ ∃ i, j = next i ∧ Passed i log := by
  cases h with
  | nil => exact .inl ⟨rfl, rfl⟩
  | snoc h hmove =>
    cases hmove with
    | refused _ e => exact .inr (.inl ⟨e, _, rfl⟩)
    | left i =>
      obtain ⟨before, hopen, rfl⟩ := h.finished_open
      exact .inr (.inr ⟨i, rfl, before, hopen, by simp⟩)

/-- The children finish one after another, from the first one on, and the one at hand comes after those that have finished. -/
theorem finishers_eq (h : ChildTrail next log p) :
    finishers log = (List.range (finishers log).length).map (fun j => next^[j] 0) ∧
      p.upcoming next = next^[(finishers log).length] 0 := by
  suffices hm : ∃ m, finishers log = (List.range m).map (fun j => next^[j] 0) ∧ p.upcoming next = next^[m] 0 by
    obtain ⟨m, hlog, hup⟩ := hm
    have hlen : (finishers log).length = m := by rw [hlog, List.length_map, List.length_range]
    rw [hlen]
    exact ⟨hlog, hup⟩
  induction h with
  | nil => exact ⟨0, rfl, rfl⟩
  | @snoc log p p' x _ hmove ih =>
    obtain ⟨m, hlog, hup⟩ := ih
    have happend : finishers (log ++ [x]) = finishers log ++ x.finisher?.toList := by
      rw [finishers, List.filterMap_append, ← finishers]
      cases hx : x.finisher? <;> simp [hx]
    cases hmove with
    | finished i =>
      have hi : i = next^[m] 0 := hup
      refine ⟨m + 1, ?_, ?_⟩
      · rw [happend, hlog, List.range_succ, List.map_append, hi]
        rfl
      · rw [Function.iterate_succ_apply', ← hi]
        rfl
    | stepped hx => exact ⟨m, by rw [happend, hx.finisher?_eq, hlog]; exact List.append_nil _, hup⟩
    | refused | entered | left | abandoned => exact ⟨m, by rw [happend, hlog]; exact List.append_nil _, hup⟩

end ChildTrail

/-! ## What one call comes to -/

/-- A step of the child at hand, or none. -/
inductive StepPart (next : Nat → Nat) : ChildPhase → List Incident → ChildPhase → Prop where
  | none (p : ChildPhase) : StepPart next p [] p
  | unfinished {i : Nat} {x : Incident} : x.Unfinished i → StepPart next (.inside i) [x] (.inside i)
  | finished (i : Nat) : StepPart next (.inside i) [.stepped i (.ok ()) true, .left i] (.due (next i))

/-- An attempt to enter the child that is due, or none. -/
inductive EntryPart : ChildPhase → List Incident → ChildPhase → Prop where
  | none (p : ChildPhase) : EntryPart p [] p
  | refused (i : Nat) (e : BlockError) : EntryPart (.due i) [.entered i (.error e)] (.due i)
  | entered (i : Nat) : EntryPart (.due i) [.entered i (.ok ())] (.inside i)

/-- What happens to the children in one call: a step at most, and then an attempt at most to enter one. -/
inductive Passage (next : Nat → Nat) : ChildPhase → List Incident → ChildPhase → Prop where
  | mk {p p₁ p₂ : ChildPhase} {steps tries : List Incident} : StepPart next p steps p₁ → EntryPart p₁ tries p₂ →
      Passage next p (steps ++ tries) p₂

namespace Passage

variable {next : Nat → Nat} {p p' : ChildPhase} {es : List Incident}

theorem step (h : StepPart next p es p') : Passage next p es p' := by
  have hes := Passage.mk h (.none p')
  rwa [List.append_nil] at hes

theorem attempt (h : EntryPart p es p') : Passage next p es p' := .mk (.none p) h

theorem idle (p : ChildPhase) : Passage next p [] p := .attempt (.none p)

end Passage

/-- Nothing follows an attempt to enter a child. -/
def AttemptLast (es : List Incident) : Prop := ∀ before i r after, es = before ++ .entered i r :: after → after = []

namespace ChildTrail

variable {next : Nat → Nat} {log es : List Incident} {p p' : ChildPhase}

theorem step (h : ChildTrail next log p) (hes : StepPart next p es p') : ChildTrail next (log ++ es) p' := by
  cases hes with
  | none => rwa [List.append_nil]
  | unfinished hx => exact h.snoc (.stepped hx)
  | finished i =>
    rw [List.append_cons]
    exact (h.snoc (.finished i)).snoc (.left i)

/-- A trail goes on with an attempt to enter a child. -/
theorem entry (h : ChildTrail next log p) (hes : EntryPart p es p') : ChildTrail next (log ++ es) p' := by
  cases hes with
  | none => rwa [List.append_nil]
  | refused i e => exact h.snoc (.refused i e)
  | entered i => exact h.snoc (.entered i)

/-- A trail goes on with a passage. -/
theorem passage (h : ChildTrail next log p) (hes : Passage next p es p') : ChildTrail next (log ++ es) p' := by
  cases hes with
  | mk hsteps htries =>
    rw [← List.append_assoc]
    exact (h.step hsteps).entry htries

end ChildTrail

/-- No attempt is among the incidents of a step. -/
theorem StepPart.not_entered {next : Nat → Nat} {es : List Incident} {p p' : ChildPhase} (h : StepPart next p es p') (i : Nat)
    (r : Outcome) : .entered i r ∉ es := by
  cases h with
  | none => simp
  | unfinished hx =>
    obtain ⟨_, _, rfl, -⟩ := hx
    simp
  | finished j => simp

/-- In a passage an attempt to enter a child comes last. -/
theorem Passage.attemptLast {next : Nat → Nat} {es : List Incident} {p p' : ChildPhase} (h : Passage next p es p') :
    AttemptLast es := by
  rintro before i r after hes
  cases h with
  | @mk _ _ steps tries hsteps htries =>
    have hlen : tries.length ≤ 1 := by cases htries <;> simp
    -- The attempt is not among the steps, so it is the one try.
    rcases List.append_eq_append_iff.mp hes with ⟨more, -, htries'⟩ | ⟨more, hsteps', htries'⟩
    · rw [htries', List.length_append, List.length_cons] at hlen
      exact List.eq_nil_of_length_eq_zero (by omega)
    · cases more with
      | nil =>
        rw [List.nil_append] at htries'
        rw [← htries', List.length_cons] at hlen
        exact List.eq_nil_of_length_eq_zero (by omega)
      | cons y more =>
        obtain ⟨rfl, -⟩ := List.cons_eq_cons.mp htries'
        exact absurd (hsteps' ▸ by simp) (hsteps.not_entered i r)

/-! ## Activations -/

/-- What happened to the children in some calls, in order. -/
def childLog (past : List LoopCall) : List Incident := past.flatMap fun x => x.incidents.filter (·.onChild)

/-- The children have been taken in order in the calls of one activation, if `next` tells the successor of a child. -/
structure Succession (next : Nat → Nat) (past : List LoopCall) : Prop where
  /-- First of all, an attempt is made to enter the first child. -/
  first : ∀ x ∈ (childLog past).head?, ∃ r, x = .entered 0 r
  /-- An attempt to enter a child is the first of all, or follows one that failed, or the child that it succeeds has passed. -/
  attempts : ∀ before j r after, childLog past = before ++ .entered j r :: after → (before = [] ∧ j = 0) ∨
    (∃ e earlier, before = earlier ++ [.entered j (.error e)]) ∨ ∃ i, j = next i ∧ Passed i before
  /-- After an attempt that failed nothing comes but another one to enter the same child. -/
  retried : ∀ before j e x after, childLog past = before ++ .entered j (.error e) :: x :: after → ∃ r, x = .entered j r
  /-- A child is stepped only after it was entered and before it has finished. -/
  steps : ∀ before i r complete after, childLog past = before ++ .stepped i r complete :: after → Open i before
  /-- A child is left when it has just finished, or unfinished as the last thing of the activation. -/
  leaves : ∀ before i after, childLog past = before ++ .left i :: after →
    (∃ earlier, Open i earlier ∧ before = earlier ++ [.stepped i (.ok ()) true]) ∨ (Open i before ∧ after = [])
  /-- In the call that makes an attempt to enter a child nothing happens to a child after it, so a child is first stepped in a later
  call. -/
  later : ∀ x ∈ past, AttemptLast (x.incidents.filter (·.onChild))
  /-- The children finish one after another, from the first one on. -/
  order : finishers (childLog past) = (List.range (finishers (childLog past)).length).map fun j => next^[j] 0

section

variable {next : Nat → Nat} {past : List LoopCall} {p : ChildPhase}

/-- Children that leave a trail succeed each other. -/
theorem ChildTrail.succession (h : ChildTrail next (childLog past) p)
    (hlater : ∀ x ∈ past, AttemptLast (x.incidents.filter (·.onChild))) : Succession next past where
  first := by
    intro x hx
    obtain ⟨rest, hlog⟩ := List.head?_eq_some_iff.mp hx
    rw [← List.nil_append (x :: rest)] at hlog
    rw [hlog] at h
    obtain ⟨p₁, _, hbefore, hmove, -⟩ := h.at_moment
    generalize hnil : ([] : List Incident) = none at hbefore
    cases hbefore with
    | nil =>
      cases hmove with
      | refused _ e => exact ⟨_, rfl⟩
      | entered => exact ⟨_, rfl⟩
    | snoc => simp at hnil
  attempts := by
    intro before j r after hlog
    rw [hlog] at h
    obtain ⟨p₁, _, hbefore, hmove, -⟩ := h.at_moment
    cases hmove with
    | refused | entered => exact hbefore.due_cases
    | stepped hx =>
      obtain ⟨_, _, hne, -⟩ := hx
      nomatch hne
  retried := by
    intro before j e x after hlog
    rw [hlog, List.append_cons] at h
    obtain ⟨p₁, _, hbefore, hmove, -⟩ := h.at_moment
    obtain ⟨_, -, hfailed⟩ := hbefore.last
    cases hfailed with
    | refused =>
      cases hmove with
      | refused _ e => exact ⟨_, rfl⟩
      | entered => exact ⟨_, rfl⟩
    | stepped hx =>
      obtain ⟨_, _, hne, -⟩ := hx
      nomatch hne
  steps := by
    intro before i r complete after hlog
    rw [hlog] at h
    obtain ⟨p₁, _, hbefore, hmove, -⟩ := h.at_moment
    cases hmove with
    | stepped hx =>
      obtain ⟨_, _, heq, -⟩ := hx
      cases heq
      exact hbefore.inside_open
    | finished => exact hbefore.inside_open
  leaves := by
    intro before i after hlog
    rw [hlog] at h
    obtain ⟨p₁, p₂, hbefore, hmove, hmoved⟩ := h.at_moment
    cases hmove with
    | stepped hx =>
      obtain ⟨_, _, hne, -⟩ := hx
      nomatch hne
    | left => exact .inl hbefore.finished_open
    | abandoned =>
      refine .inr ⟨hbefore.inside_open, ?_⟩
      cases after with
      | nil => rfl
      | cons x after =>
        -- Nothing goes on from a child that was abandoned.
        rw [List.append_cons] at h
        obtain ⟨p₃, _, habandoned, hmore, -⟩ := h.at_moment
        obtain rfl := hmoved.unique habandoned
        nomatch hmore
  later := hlater
  order := h.finishers_eq.1

end

/-- Nothing is tried where nothing happens. -/
theorem attemptLast_nil : AttemptLast [] := by
  intro before i r after hes
  simp at hes

theorem childLog_append (past : List LoopCall) (x : LoopCall) :
    childLog (past ++ [x]) = childLog past ++ x.incidents.filter (·.onChild) := by
  rw [childLog, List.flatMap_append, List.flatMap_singleton, ← childLog]

end BlockScript
