import Mathlib.Tactic.Common

/-!
# Runs of a partial step function

A system is a function `step : σ → α → Option σ`: the action `a` is enabled in `s` when `step s a`
answers. `run` plays a fixed list of actions, `Reach` is every state some run whose steps all
satisfy the condition `ok` arrives in.
-/

namespace ContainerRegistry.Library

open List

variable {σ α : Type}

/-- Play the actions in order; the run ends early where an action is not enabled. -/
def run (step : σ → α → Option σ) (s : σ) : List α → Option σ
  | [] => some s
  | a :: as => (step s a).bind fun s' => run step s' as

/-- The states reached from `init` by steps that satisfy `ok`, a condition on the state
before the step and the action taken. -/
inductive Reach (step : σ → α → Option σ) (ok : σ → α → Prop) (init : σ) : σ → Prop where
  | init : Reach step ok init init
  | next {s s' : σ} {a : α} :
      Reach step ok init s → ok s a → step s a = some s' → Reach step ok init s'

variable {step : σ → α → Option σ} {ok : σ → α → Prop} {init : σ}

variable {P : σ → Prop}

/-- INTERNAL: the invariant rule. The step obligation may use that the state before the
step is itself reached. -/
theorem Reach.invariant (h0 : P init)
    (hstep : ∀ s a s', Reach step ok init s → P s → ok s a → step s a = some s' → P s') {s}
    (h : Reach step ok init s) : P s := by
  induction h with
  | init => exact h0
  | next hr hok hs ih => exact hstep _ _ _ hr ih hok hs

/-- INTERNAL: a condition that holds of every step taken may take the place of the condition on
the steps. -/
theorem Reach.weaken {ok' : σ → α → Prop}
    (himp : ∀ s a, Reach step ok init s → ok s a → ok' s a) {s} (h : Reach step ok init s) :
    Reach step ok' init s := by
  induction h with
  | init => exact Reach.init
  | next hr hok hs ih => exact Reach.next ih (himp _ _ hr hok) hs

/-- What each step keeps, runs keep. -/
theorem run_invariant (hstep : ∀ s a s', P s → step s a = some s' → P s') {s s' as}
    (h0 : P s) (h : run step s as = some s') : P s' := by
  induction as generalizing s with
  | nil =>
    simp only [run, Option.some.injEq] at h
    exact h ▸ h0
  | cons a as ih =>
    simp only [run, Option.bind_eq_some_iff] at h
    obtain ⟨s₁, h₁, h₂⟩ := h
    exact ih (hstep _ _ _ h0 h₁) h₂

/-- Runs may be joined. -/
theorem run_append {s s₁ as bs} (h : run step s as = some s₁) :
    run step s (as ++ bs) = run step s₁ bs := by
  induction as generalizing s with
  | nil =>
    simp only [run, Option.some.injEq] at h
    rw [h, nil_append]
  | cons a as ih =>
    simp only [run, Option.bind_eq_some_iff] at h
    obtain ⟨s₂, h₁, h₂⟩ := h
    rw [cons_append, run, h₁, Option.bind_some]
    exact ih h₂

/-- A measure bounds the steps. -/
theorem run_length_le {internal : α → Prop} {μ : σ → ℕ}
    (hstep : ∀ s a s', P s → internal a → step s a = some s' → P s' ∧ μ s' < μ s) {s s' as}
    (h0 : P s) (has : ∀ a ∈ as, internal a) (h : run step s as = some s') : as.length ≤ μ s := by
  induction as generalizing s with
  | nil => exact Nat.zero_le _
  | cons a as ih =>
    simp only [run, Option.bind_eq_some_iff] at h
    obtain ⟨s₁, h₁, h₂⟩ := h
    obtain ⟨hP, hlt⟩ := hstep s a s₁ h0 (has a mem_cons_self) h₁
    have hle := ih hP (fun x hx => has x (mem_cons_of_mem _ hx)) h₂
    simp only [length_cons]
    omega

/-- A step that lowers a measure gets there. -/
theorem exists_run_replicate {P Q : σ → Prop} {μ : σ → ℕ} {a}
    (hstep : ∀ s, P s → Q s ∨ ∃ s', step s a = some s' ∧ P s' ∧ μ s' < μ s) {s} (h0 : P s) :
    ∃ i s', run step s (List.replicate i a) = some s' ∧ P s' ∧ Q s' := by
  obtain ⟨m, hm⟩ : ∃ m, μ s = m := ⟨_, rfl⟩
  induction m using Nat.strongRecOn generalizing s with
  | ind m ih =>
    rcases hstep s h0 with hQ | ⟨s₁, h₁, hP, hlt⟩
    · exact ⟨0, s, rfl, h0, hQ⟩
    · obtain ⟨i, s', hrun, hs'⟩ := ih (μ s₁) (hm ▸ hlt) hP rfl
      refine ⟨i + 1, s', ?_, hs'⟩
      rw [replicate_succ, run, h₁, Option.bind_some]
      exact hrun

/-- The step function confined to the steps that satisfy `ok`. -/
def confine (step : σ → α → Option σ) (ok : σ → α → Prop) [∀ s a, Decidable (ok s a)]
    (s : σ) (a : α) : Option σ :=
  if ok s a then step s a else none

/-- What a run leads to is reached. -/
theorem reach_of_run [∀ s a, Decidable (ok s a)] {s s' as}
    (hs : Reach step ok init s) (h : run (confine step ok) s as = some s') :
    Reach step ok init s' := by
  induction as generalizing s with
  | nil =>
    simp only [run, Option.some.injEq] at h
    exact h ▸ hs
  | cons a as ih =>
    simp only [run, Option.bind_eq_some_iff] at h
    obtain ⟨s₁, h₁, h₂⟩ := h
    unfold confine at h₁
    split at h₁
    next hok => exact ih (Reach.next hs hok h₁) h₂
    next => cases h₁

/-- INTERNAL: a run that evaluates to a state with a decidable property reaches such a
state. -/
theorem exists_reach [∀ s a, Decidable (ok s a)] [DecidablePred P] (as : List α)
    (h : (run (confine step ok) init as).any (fun s => decide (P s)) = true) :
    ∃ s, Reach step ok init s ∧ P s := by
  cases hrun : run (confine step ok) init as with
  | none => simp [hrun] at h
  | some s =>
    rw [hrun, Option.any_some, decide_eq_true_eq] at h
    exact ⟨s, reach_of_run Reach.init hrun, h⟩

end ContainerRegistry.Library
