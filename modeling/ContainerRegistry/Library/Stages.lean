import Mathlib.Tactic.Common

/-!
# Stages that may fail

A stage is a function `σ → σ × Option ε`: what it has changed stays when it fails.

`Keeps R` is for a relation between the states before and after a stage, whether it fails or not;
`Meets P stage Q E` for what holds after a stage that starts in `P`: `Q` if it succeeds, and `E` of
the error if it fails; `Fails I` for stages that fail at once.
-/

namespace ContainerRegistry.Library

open List

abbrev Stage (σ ε : Type) := σ → σ × Option ε

namespace Stage

variable {σ ε α : Type}

def andThen (first second : Stage σ ε) : Stage σ ε := fun s =>
  match first s with
  | (s', some e) => (s', some e)
  | (s', none) => second s'

def when (c : Bool) (stage : Stage σ ε) : Stage σ ε := fun s =>
  if c then stage s else (s, none)

def check (f : σ → Option ε) : Stage σ ε := fun s => (s, f s)

def forEach (stage : α → Stage σ ε) : List α → Stage σ ε
  | [] => fun s => (s, none)
  | x :: xs => (stage x).andThen (forEach stage xs)

def mapError (g : ε → ε) (stage : Stage σ ε) : Stage σ ε := fun s =>
  ((stage s).1, (stage s).2.map g)

/-- Run a stage and go on whatever came of it: an error is logged. -/
def logged (stage : Stage σ ε) : Stage σ ε := fun s => ((stage s).1, none)

def fail (e : ε) : Stage σ ε := fun s => (s, some e)

variable {first second : Stage σ ε} {s : σ}

/-- Both stages of a pair that succeeds have succeeded. -/
theorem andThen_ok {s'} (h : first.andThen second s = (s', none)) :
    ∃ s₁, first s = (s₁, none) ∧ second s₁ = (s', none) := by
  unfold andThen at h
  cases hf : first s with
  | mk s₁ err =>
    rw [hf] at h
    cases err with
    | some e => cases h
    | none => exact ⟨s₁, rfl, h⟩

/-- After a success the second stage runs. -/
theorem andThen_of_ok {s'} (h : first s = (s', none)) : first.andThen second s = second s' := by
  rw [andThen, h]

/-- After an error nothing runs. -/
theorem andThen_of_error {s' e} (h : first s = (s', some e)) :
    first.andThen second s = (s', some e) := by
  rw [andThen, h]

/-- The second stage runs from the state the first one has left. -/
theorem andThen_of_none (h : (first s).2 = none) : first.andThen second s = second (first s).1 :=
  andThen_of_ok (Prod.ext rfl h)

/-- An error is handed on. -/
theorem andThen_of_some {e} (h : (first s).2 = some e) :
    first.andThen second s = ((first s).1, some e) :=
  andThen_of_error (Prod.ext rfl h)

/-- A check that passes changes nothing. -/
theorem check_andThen_of_none {o : Option ε} (h : o = none) :
    (check fun _ => o).andThen second s = second s :=
  andThen_of_ok (h ▸ rfl)

/-- A check that does not pass is the end. -/
theorem check_andThen_of_some {o : Option ε} {e : ε} (h : o = some e) :
    (check fun _ => o).andThen second s = (s, some e) :=
  andThen_of_error (h ▸ rfl)

/-! ## Stages that fail at once -/

/-- From a state in `I` the stage fails, always with the same error, and changes nothing. -/
def Fails (I : σ → Prop) (stage : Stage σ ε) : Prop := ∃ e, ∀ s, I s → stage s = (s, some e)

variable {I : σ → Prop}

/-- What follows does not matter. -/
theorem Fails.andThen (h : Fails I first) : Fails I (first.andThen second) := by
  obtain ⟨e, he⟩ := h
  exact ⟨e, fun s hs => andThen_of_error (he s hs)⟩

/-- A check that never passes. -/
theorem Fails.check {o : Option ε} {e : ε} (h : o = some e) : Fails I (Stage.check fun _ => o) :=
  ⟨e, fun _ _ => h ▸ rfl⟩

/-- A failure. -/
theorem Fails.fail {e : ε} : Fails I (Stage.fail e) := ⟨e, fun _ _ => rfl⟩

/-- A check that passes comes first. -/
theorem Fails.after_check {o : Option ε} (ho : o = none) (h : Fails I second) :
    Fails I ((Stage.check fun _ => o).andThen second) := by
  obtain ⟨e, he⟩ := h
  exact ⟨e, fun s hs => (check_andThen_of_none ho).trans (he s hs)⟩

/-! ## What a stage keeps -/

/-- A stage that keeps a relation between the states before and after, also when it fails. -/
def Keeps (R : σ → σ → Prop) (stage : Stage σ ε) : Prop := ∀ s, R s (stage s).1

variable {R : σ → σ → Prop} {stage : Stage σ ε}

/-- The relation holds for a known result. -/
theorem Keeps.of_eq (h : Keeps R stage) {s s' err} (heq : stage s = (s', err)) : R s s' := by
  have hs := h s
  rwa [heq] at hs

/-- An error may be renamed. -/
theorem Keeps.mapError {g : ε → ε} (h : Keeps R stage) : Keeps R (Stage.mapError g stage) := h

/-- An error may be logged. -/
theorem Keeps.logged (h : Keeps R stage) : Keeps R (Stage.logged stage) := h

/-- A stage that depends on what it reads. -/
theorem Keeps.read {stage : α → Stage σ ε} {f : σ → α} (h : ∀ x, Keeps R (stage x)) :
    Keeps R fun s => stage (f s) s := by
  intro s
  apply h

variable [IsPreorder σ R]

/-- Two stages one after the other. -/
theorem Keeps.andThen (h₁ : Keeps R first) (h₂ : Keeps R second) :
    Keeps R (first.andThen second) := by
  intro s
  have hs := h₁ s
  unfold Stage.andThen
  cases hf : first s with
  | mk s₁ err =>
    rw [hf] at hs
    cases err with
    | some e => exact hs
    | none => exact trans_of R hs (h₂ s₁)

/-- A stage that may be left out. -/
theorem Keeps.when {c} (h : Keeps R stage) : Keeps R (Stage.when c stage) := by
  intro s
  unfold Stage.when
  split
  · exact h s
  · exact refl_of R s

/-- A check changes nothing. -/
theorem Keeps.check {f : σ → Option ε} : Keeps R (Stage.check f) := refl_of R

/-- A failure changes nothing. -/
theorem Keeps.fail {e : ε} : Keeps R (Stage.fail e) := refl_of R

variable {l : List α} {stage : α → Stage σ ε}

/-- The rule for loops. -/
theorem Keeps.forEach (h : ∀ x ∈ l, Keeps R (stage x)) : Keeps R (Stage.forEach stage l) := by
  induction l with
  | nil => exact refl_of R
  | cons x xs ih =>
    apply Keeps.andThen (h x mem_cons_self)
    exact ih fun y hy => h y (mem_cons_of_mem _ hy)

/-! ## Pre- and postconditions -/

/-- What holds of a result: `Q` after a success, `E e` after a failure with `e`. -/
def After (Q : σ → Prop) (E : ε → σ → Prop) : σ × Option ε → Prop
  | (s, none) => Q s
  | (s, some e) => E e s

/-- From `P`, a stage ends in `Q` if it succeeds and in `E e` if it fails with `e`. -/
def Meets (P : σ → Prop) (stage : Stage σ ε) (Q : σ → Prop) (E : ε → σ → Prop) : Prop :=
  ∀ s, P s → After Q E (stage s)

variable {P P' Q Q' : σ → Prop} {E : ε → σ → Prop}

/-- The postcondition may be weakened. -/
theorem After.imp {r} (h : After Q E r) (hQ : ∀ s, Q s → Q' s) : After Q' E r := by
  obtain ⟨s, err⟩ := r
  cases err with
  | none => apply hQ s h
  | some e => apply h

/-- The two ways a stage ends. -/
theorem After.elim {r} (h : After Q E r) :
    (∃ s, r = (s, none) ∧ Q s) ∨ ∃ s e, r = (s, some e) ∧ E e s := by
  obtain ⟨s, err⟩ := r
  cases err with
  | none => exact .inl ⟨s, rfl, h⟩
  | some e => exact .inr ⟨s, e, rfl, h⟩

/-- The rule of consequence. -/
theorem Meets.imp {stage} (h : Meets P stage Q E) (hP : ∀ s, P' s → P s)
    (hQ : ∀ s, Q s → Q' s) : Meets P' stage Q' E :=
  fun s hs => (h s (hP s hs)).imp hQ

/-- The rule for sequences. -/
theorem Meets.andThen (h₁ : Meets P first Q E) (h₂ : Meets Q second Q' E) :
    Meets P (first.andThen second) Q' E := by
  intro s hs
  unfold Stage.andThen
  rcases (h₁ s hs).elim with ⟨s', hr, hQ⟩ | ⟨s', e, hr, hE⟩ <;> rw [hr]
  · exact h₂ s' hQ
  · exact hE

/-- The rule for checks. -/
theorem Meets.check {f : σ → Option ε} (hok : ∀ s, P s → f s = none → Q s)
    (herr : ∀ s e, P s → f s = some e → E e s) : Meets P (Stage.check f) Q E := by
  intro s hs
  unfold Stage.check
  cases hf : f s with
  | none => apply hok s hs hf
  | some e => apply herr s e hs hf

/-- What a stage reads is known in its precondition. -/
theorem Meets.read {f : σ → α} (h : ∀ x, Meets (fun s => P s ∧ f s = x) (stage x) Q E) :
    Meets P (fun s => stage (f s) s) Q E := by
  intro s hs
  apply h (f s) s
  exact ⟨hs, rfl⟩

/-- The rule for a stage that may be left out. -/
theorem Meets.when {stage c} (h : c = true → Meets P stage Q E)
    (hskip : c = false → ∀ s, P s → Q s) : Meets P (Stage.when c stage) Q E := by
  cases c with
  | true => apply h rfl
  | false => apply hskip rfl

/-- The rule for renamed errors. -/
theorem Meets.mapError {stage} {g : ε → ε} (h : Meets P stage Q fun e => E (g e)) :
    Meets P (Stage.mapError g stage) Q E := by
  intro s hs
  unfold Stage.mapError
  rcases (h s hs).elim with ⟨s', hr, hQ⟩ | ⟨s', e, hr, hE⟩ <;> rw [hr]
  · exact hQ
  · exact hE

/-- The rule for loops, with an invariant over the elements to come. -/
theorem Meets.forEach {I : List α → σ → Prop} (h : ∀ x xs, Meets (I (x :: xs)) (stage x) (I xs) E) :
    Meets (I l) (Stage.forEach stage l) (I []) E := by
  induction l with
  | nil =>
    intro s hs
    apply hs
  | cons x xs ih => apply (h x xs).andThen ih

/-- INTERNAL: the rule for loops that always go on. What the stage of an element establishes, and
no later one destroys, holds of every element in the end. -/
theorem forEach_all {I : σ → Prop} {P : α → σ → Prop}
    (hok : ∀ x ∈ l, ∀ s, I s → (stage x s).2 = none) (hinv : ∀ x ∈ l, ∀ s, I s → I (stage x s).1)
    (hpost : ∀ x ∈ l, ∀ s, I s → P x (stage x s).1)
    (hstable : ∀ x, ∀ y ∈ l, ∀ s, I s → P x s → P x (stage y s).1) (hs : I s) :
    (forEach stage l s).2 = none ∧ I (forEach stage l s).1 ∧
      ∀ x, x ∈ l ∨ P x s → P x (forEach stage l s).1 := by
  induction l generalizing s with
  | nil => exact ⟨rfl, hs, fun x hx => hx.resolve_left not_mem_nil⟩
  | cons y ys ih =>
    have hy := hinv y mem_cons_self s hs
    obtain ⟨hnone, hI, hP⟩ := ih (fun x hx => hok x (mem_cons_of_mem _ hx))
      (fun x hx => hinv x (mem_cons_of_mem _ hx))
      (fun x hx => hpost x (mem_cons_of_mem _ hx))
      (fun x z hz => hstable x z (mem_cons_of_mem _ hz)) hy
    rw [forEach, andThen_of_none (hok y mem_cons_self s hs)]
    refine ⟨hnone, hI, fun x hx => hP x ?_⟩
    rcases hx with hx | hx
    · rcases mem_cons.1 hx with rfl | hx
      · exact .inr (hpost x mem_cons_self s hs)
      · exact .inl hx
    · exact .inr (hstable x y mem_cons_self s hs hx)

/-- A loop over logged stages succeeds. -/
theorem forEach_logged (stage : α → Stage σ ε) (l : List α) (s : σ) :
    (forEach (fun x => (stage x).logged) l s).2 = none := by
  induction l generalizing s with
  | nil => rfl
  | cons x xs ih =>
    rw [forEach, andThen_of_none rfl]
    apply ih

/-- INTERNAL: a loop that comes out well has run the stage of every element, and the stage came out
well. -/
theorem forEach_of_none (hkeeps : ∀ x ∈ l, Keeps R (stage x)) (h : (forEach stage l s).2 = none) :
    ∀ x ∈ l, ∃ t, R s t ∧ (stage x t).2 = none ∧ R (stage x t).1 (forEach stage l s).1 := by
  induction l generalizing s with
  | nil =>
    intro x hx
    cases hx
  | cons y ys ih =>
    have hys := fun z hz => hkeeps z (mem_cons_of_mem _ hz)
    cases hy : (stage y s).2 with
    | some e =>
      rw [forEach, andThen_of_some hy] at h
      cases h
    | none =>
      rw [forEach, andThen_of_none hy] at h ⊢
      intro x hx
      rcases mem_cons.1 hx with rfl | hx
      · exact ⟨s, refl_of R s, hy, Keeps.forEach hys _⟩
      · obtain ⟨t, hst, ht, hend⟩ := ih hys h x hx
        exact ⟨t, trans_of R (hkeeps y mem_cons_self s) hst, ht, hend⟩

/-! ## Stages that move on -/

section Onward

variable {ω : Type} {obs : σ → ω} {R : ω → ω → Prop} {I : ω → Prop}

/-- From a state that satisfies the invariant, on to another one along `R`. -/
def Onward (obs : σ → ω) (R : ω → ω → Prop) (I : ω → Prop) (s s' : σ) : Prop :=
  I (obs s) → I (obs s') ∧ R (obs s) (obs s')

instance [IsPreorder ω R] : IsPreorder σ (Onward obs R I) where
  refl _ hs := ⟨hs, refl_of R _⟩
  trans s₁ s₂ s₃ h h' hs := by
    obtain ⟨hi, hr⟩ := h hs
    obtain ⟨hi', hr'⟩ := h' hi
    exact ⟨hi', trans_of R hr hr'⟩

/-- A stage that fails at once moves on. -/
theorem Fails.onward [IsPreorder ω R] {stage : Stage σ ε} (h : Fails (fun s => I (obs s)) stage) :
    Keeps (Onward obs R I) stage := by
  obtain ⟨e, he⟩ := h
  intro s hs
  rw [he s hs]
  exact ⟨hs, refl_of R _⟩

end Onward

end Stage

end ContainerRegistry.Library
