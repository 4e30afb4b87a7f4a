import ContainerRegistry.Library.Runs

/-!
# Writers that are closed and reopened

A file is put as a whole, or written by a writer that is opened, anew or to append, and closed or
committed in the end. An `Appender` carries out these calls over states `σ`; `ρ` is what the world
around does during a call.

`step` makes the calls in a possible order, and keeps the content the file should have and how the
last call has ended.
-/

namespace ContainerRegistry.Library

/-- How a call ends. It crashes if it panics, or does not return. -/
inductive Appender.Outcome (ε : Type) where
  | ok
  | failed (e : ε)
  | crashed
  deriving DecidableEq

inductive Appender.Phase where
  | absent
  /-- A writer is open. -/
  | writing
  | closed
  | committed
  deriving DecidableEq

/-- The calls; `write` also tells how many elements it has accepted. -/
structure Appender (σ α ε ρ : Type) where
  put : ρ → List α → σ → σ × Appender.Outcome ε
  create : ρ → σ → σ × Appender.Outcome ε
  reopen : ρ → σ → σ × Appender.Outcome ε
  write : ρ → List α → σ → (σ × ℕ) × Appender.Outcome ε
  close : ρ → σ → σ × Appender.Outcome ε
  commit : ρ → σ → σ × Appender.Outcome ε

namespace Appender

variable {σ α ε ρ τ : Type}

inductive Call (α ρ : Type) where
  | put (r : ρ) (p : List α)
  | create (r : ρ)
  | reopen (r : ρ)
  | write (r : ρ) (p : List α)
  | close (r : ρ)
  | commit (r : ρ)
  deriving DecidableEq

structure State (σ α ε : Type) where
  world : σ
  phase : Phase
  /-- What the writer, or the last one, should have written. -/
  accepted : List α
  /-- How the last call has ended. -/
  outcome : Outcome ε
  deriving DecidableEq

def start (w : σ) : State σ α ε := ⟨w, .absent, [], .ok⟩

/-- The books after a call that leads to a phase and a content if it succeeds. -/
def State.after (s : State σ α ε) (r : σ × Outcome ε) (phase : Phase) (accepted : List α) :
    State σ α ε :=
  match r.2 with
  | .ok => ⟨r.1, phase, accepted, .ok⟩
  | o => { s with world := r.1, outcome := o }

/-- One call. A writer is written to, closed and committed while it is open, and another one is
opened only after that. -/
def step (A : Appender σ α ε ρ) (s : State σ α ε) : Call α ρ → Option (State σ α ε)
  | .put r p =>
    if s.phase = .writing then none else some (s.after (A.put r p s.world) .committed p)
  | .create r =>
    if s.phase = .writing then none else some (s.after (A.create r s.world) .writing [])
  | .reopen r =>
    if s.phase = .closed ∨ s.phase = .committed then
      some (s.after (A.reopen r s.world) .writing s.accepted)
    else none
  | .write r p =>
    if s.phase = .writing then
      some { s with
        world := (A.write r p s.world).1.1
        accepted := s.accepted ++ p.take (A.write r p s.world).1.2
        outcome := (A.write r p s.world).2 }
    else none
  | .close r =>
    if s.phase = .writing then some (s.after (A.close r s.world) .closed s.accepted) else none
  | .commit r =>
    if s.phase = .writing then some (s.after (A.commit r s.world) .committed s.accepted) else none

/-- The call succeeds with `Q`, or fails with `E`. -/
def Ends (Q : τ → Prop) (E : ε → τ → Prop) (r : τ × Outcome ε) : Prop :=
  match r.2 with
  | .ok => Q r.1
  | .failed e => E e r.1
  | .crashed => False

/-- The two ways a call ends. -/
theorem Ends.elim {Q : τ → Prop} {E : ε → τ → Prop} {r} (h : Ends Q E r) :
    (∃ t, r = (t, .ok) ∧ Q t) ∨ ∃ t e, r = (t, .failed e) ∧ E e t := by
  obtain ⟨t, o⟩ := r
  cases o with
  | ok => exact .inl ⟨t, rfl, h⟩
  | failed e => exact .inr ⟨t, e, rfl, h⟩
  | crashed => exact False.elim h

/-- Each call keeps the relation when it succeeds, and fails with `E`. No call is made after one
that has failed. -/
structure Respects (A : Appender σ α ε ρ) (ok : State σ α ε → Call α ρ → Prop)
    (rel : Phase → List α → σ → Prop) (E : ε → σ → Prop) : Prop where
  calm : ∀ s c, ok s c → s.outcome = .ok
  put : ∀ s r p, ok s (.put r p) → s.phase ≠ .writing → rel s.phase s.accepted s.world →
    Ends (rel .committed p) E (A.put r p s.world)
  create : ∀ s r, ok s (.create r) → s.phase ≠ .writing → rel s.phase s.accepted s.world →
    Ends (rel .writing []) E (A.create r s.world)
  reopen : ∀ s r, ok s (.reopen r) → s.phase = .closed ∨ s.phase = .committed →
    rel s.phase s.accepted s.world → Ends (rel .writing s.accepted) E (A.reopen r s.world)
  write : ∀ s r p, ok s (.write r p) → rel .writing s.accepted s.world →
    Ends (fun t => rel .writing (s.accepted ++ p.take t.2) t.1) (fun e t => E e t.1)
      (A.write r p s.world)
  close : ∀ s r, ok s (.close r) → rel .writing s.accepted s.world →
    Ends (rel .closed s.accepted) E (A.close r s.world)
  commit : ∀ s r, ok s (.commit r) → rel .writing s.accepted s.world →
    Ends (rel .committed s.accepted) E (A.commit r s.world)

variable {A : Appender σ α ε ρ} {ok : State σ α ε → Call α ρ → Prop}
  {rel : Phase → List α → σ → Prop} {E : ε → σ → Prop}

def Holds (rel : Phase → List α → σ → Prop) (E : ε → σ → Prop) (s : State σ α ε) : Prop :=
  Ends (rel s.phase s.accepted) E (s.world, s.outcome)

theorem holds_after {s : State σ α ε} {r : σ × Outcome ε} {phase : Phase} {accepted : List α}
    (h : Ends (rel phase accepted) E r) : Holds rel E (s.after r phase accepted) := by
  obtain ⟨w, o⟩ := r
  cases o with
  | ok | failed e | crashed => exact h

/-- INTERNAL: one call. -/
theorem Respects.step (h : Respects A ok rel E) {s t : State σ α ε} {c : Call α ρ}
    (hs : Holds rel E s) (hok : ok s c) (hstep : step A s c = some t) : Holds rel E t := by
  have hrel : rel s.phase s.accepted s.world := by
    unfold Holds at hs
    rw [h.calm s c hok] at hs
    exact hs
  cases c <;> simp only [Appender.step, Option.ite_none_left_eq_some,
    Option.ite_none_right_eq_some, Option.some.injEq] at hstep <;> obtain ⟨hphase, rfl⟩ := hstep
  case put r p => exact holds_after (h.put s r p hok hphase hrel)
  case create r => exact holds_after (h.create s r hok hphase hrel)
  case reopen r => exact holds_after (h.reopen s r hok hphase hrel)
  case write r p =>
    rw [hphase] at hrel
    unfold Holds
    simp only [hphase]
    rcases (h.write s r p hok hrel).elim with ⟨t, heq, h⟩ | ⟨t, e, heq, h⟩ <;> rw [heq] <;> exact h
  case close r => exact holds_after (h.close s r hok (hphase ▸ hrel))
  case commit r => exact holds_after (h.commit s r hok (hphase ▸ hrel))

theorem Holds.elim {s} (h : Holds rel E s) :
    (s.outcome = .ok ∧ rel s.phase s.accepted s.world) ∨
      ∃ e, s.outcome = .failed e ∧ E e s.world := by
  rcases Ends.elim h with ⟨_, heq, h⟩ | ⟨_, e, heq, h⟩ <;> obtain ⟨rfl, ho⟩ := Prod.mk.inj heq
  · exact .inl ⟨ho, h⟩
  · exact .inr ⟨e, ho, h⟩

/-- INTERNAL: something is put in its place in a list that is ordered by a key. -/
theorem insert_of_lt {β : Type} {key : β → ℕ} {q qs} (h : ∀ x ∈ qs, key x < key q) :
    qs.filter (fun x => key x < key q) ++ q :: qs.filter (fun x => key q < key x) = qs ++ [q] := by
  rw [List.filter_eq_self.2 fun x hx => decide_eq_true (h x hx), List.filter_eq_nil_iff.2]
  intro x hx
  simpa using Nat.le_of_lt (h x hx)

theorem Respects.holds_of_reach (h : Respects A ok rel E) {w} (h0 : rel .absent [] w)
    {s} (hreach : Reach (Appender.step A) ok (start w) s) : Holds rel E s := by
  have hstart : Holds rel E (start w : State σ α ε) := h0
  exact Reach.invariant hstart (fun _ _ _ _ hs hok hstep => h.step hs hok hstep) hreach

end Appender

end ContainerRegistry.Library
