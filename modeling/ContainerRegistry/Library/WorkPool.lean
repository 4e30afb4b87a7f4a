import ContainerRegistry.Library.Runs

/-!
# Pools of concurrent tasks

A job is split over tasks that run in any order. A task spawns further tasks, produces effects,
reports errors and counts what it saw. The first error lets the pool be `closed`, and a task that
starts after that may do less. `finish` is the pool after a schedule that leaves no task.
-/

namespace ContainerRegistry.Library

open List

structure Work (τ E ε : Type) where
  spawn : List τ
  effects : List E
  errors : List ε
  count : ℕ

def Work.idle {τ E ε : Type} : Work τ E ε := ⟨[], [], [], 0⟩

def Work.error {τ E ε : Type} (e : ε) : Work τ E ε := ⟨[], [], [e], 0⟩

/-- The tasks that have not run and what those that have run left behind. -/
structure Pool (τ E ε : Type) where
  tasks : List τ
  effects : List E
  errors : List ε
  count : ℕ
  closed : Bool

/-- One turn of the scheduler: run the task at an index, or let the first error close the
pool. -/
inductive Turn where
  | run (i : ℕ)
  | close
  deriving DecidableEq, Repr

variable {τ E ε : Type}

def Pool.start (w : Work τ E ε) : Pool τ E ε := ⟨w.spawn, w.effects, w.errors, w.count, false⟩

/-- The pool after the task at index `i` did the work `w`. -/
def Pool.after (s : Pool τ E ε) (i : ℕ) (w : Work τ E ε) : Pool τ E ε :=
  { s with
    tasks := w.spawn ++ s.tasks.eraseIdx i
    effects := s.effects ++ w.effects
    errors := s.errors ++ w.errors
    count := s.count + w.count }

/-- One turn. `exec closed t` is the work of task `t`. -/
def Pool.step (exec : Bool → τ → Option (Work τ E ε)) (s : Pool τ E ε) :
    Turn → Option (Pool τ E ε)
  | .run i => s.tasks[i]?.bind fun t => (exec s.closed t).map (s.after i)
  | .close => if s.errors.isEmpty then none else some { s with closed := true }

/-- The pool a schedule ends in, if it has run every task. -/
def finish (exec : Bool → τ → Option (Work τ E ε)) (w : Work τ E ε) (turns : List Turn) :
    Option (Pool τ E ε) :=
  (run (Pool.step exec) (Pool.start w) turns).filter fun s => s.tasks.isEmpty

variable {exec : Bool → τ → Option (Work τ E ε)} {w₀ : Work τ E ε}

/-- What a step of the pool can be. -/
theorem Pool.step_cases {s s' : Pool τ E ε} {a : Turn} (h : s.step exec a = some s') :
    (∃ i t w, s.tasks[i]? = some t ∧ exec s.closed t = some w ∧ s' = s.after i w) ∨
      s.errors ≠ [] ∧ s' = { s with closed := true } := by
  cases a with
  | run i =>
    left
    simp only [Pool.step, Option.bind_eq_some_iff, Option.map_eq_some_iff] at h
    obtain ⟨t, ht, w, hw, rfl⟩ := h
    exact ⟨i, t, w, ht, hw, rfl⟩
  | close =>
    right
    simp only [Pool.step] at h
    split at h
    · cases h
    · next hne => exact ⟨by simpa using hne, by simpa using h.symm⟩

/-- All tasks but one. -/
theorem eq_or_mem_eraseIdx {l : List τ} {i : ℕ} {t t' : τ} (hi : l[i]? = some t)
    (h : t' ∈ l) : t' = t ∨ t' ∈ l.eraseIdx i := by
  induction l generalizing i with
  | nil => cases h
  | cons a l ih =>
    cases i with
    | zero =>
      have ha : a = t := by simpa using hi
      rcases mem_cons.1 h with rfl | h
      · exact .inl ha
      · exact .inr (by simpa using h)
    | succ i =>
      rcases mem_cons.1 h with rfl | h
      · exact .inr (by simp)
      · rcases ih (by simpa using hi) h with h | h
        · exact .inl h
        · exact .inr (by rw [eraseIdx_cons_succ]; exact mem_cons_of_mem _ h)

variable {turns : List Turn} {s : Pool τ E ε}

theorem finish_eq_some (h : finish exec w₀ turns = some s) :
    run (Pool.step exec) (Pool.start w₀) turns = some s ∧ s.tasks = [] := by
  unfold finish at h
  rw [Option.filter_eq_some_iff] at h
  exact ⟨h.1, by simpa using h.2⟩

/-- INTERNAL: if tasks satisfying `P` only spawn such tasks, produce effects in `Q` and report
errors in `R`, then so does the whole job. -/
theorem Pool.confined {P : τ → Prop} {Q : E → Prop} {R : ε → Prop}
    (h₀ : (∀ t ∈ w₀.spawn, P t) ∧ (∀ e ∈ w₀.effects, Q e) ∧ ∀ e ∈ w₀.errors, R e)
    (hexec : ∀ b t w, P t → exec b t = some w → (∀ t' ∈ w.spawn, P t') ∧ (∀ e ∈ w.effects, Q e) ∧
      ∀ e ∈ w.errors, R e)
    (h : finish exec w₀ turns = some s) : (∀ e ∈ s.effects, Q e) ∧ ∀ e ∈ s.errors, R e := by
  have hinv : (∀ t ∈ s.tasks, P t) ∧ (∀ e ∈ s.effects, Q e) ∧ ∀ e ∈ s.errors, R e := by
    refine run_invariant
      (P := fun s : Pool τ E ε =>
        (∀ t ∈ s.tasks, P t) ∧ (∀ e ∈ s.effects, Q e) ∧ ∀ e ∈ s.errors, R e)
      ?_ h₀ (finish_eq_some h).1
    rintro s a s' ⟨ht, he, hr⟩ hstep
    rcases Pool.step_cases hstep with ⟨i, t, w, hti, hw, rfl⟩ | ⟨_, rfl⟩
    · obtain ⟨ht', he', hr'⟩ := hexec _ t w (ht t (mem_of_getElem? hti)) hw
      refine ⟨fun t' hmem => ?_, fun e hmem => ?_, fun e hmem => ?_⟩
      · rcases mem_append.1 hmem with hmem | hmem
        · exact ht' t' hmem
        · exact ht t' (mem_of_mem_eraseIdx hmem)
      · rcases mem_append.1 hmem with hmem | hmem
        · exact he e hmem
        · exact he' e hmem
      · rcases mem_append.1 hmem with hmem | hmem
        · exact hr e hmem
        · exact hr' e hmem
    · exact ⟨ht, he, hr⟩
  exact hinv.2

/-! ## Finishing without an error -/

inductive Descends (exec : Bool → τ → Option (Work τ E ε)) (w₀ : Work τ E ε) : τ → Prop where
  | first {t : τ} : t ∈ w₀.spawn → Descends exec w₀ t
  | spawned {t t' : τ} {w : Work τ E ε} :
      Descends exec w₀ t → exec false t = some w → t' ∈ w.spawn → Descends exec w₀ t'

/-- The work of `t` is done in `s`: it reported no error, and its effects are there. -/
def Pool.Did (exec : Bool → τ → Option (Work τ E ε)) (s : Pool τ E ε) (t : τ) : Prop :=
  ∃ w, exec false t = some w ∧ w.errors = [] ∧ ∀ e ∈ w.effects, e ∈ s.effects

/-- While no error is reported: the pool is open, and the tasks in `done` have been run and
spawned only tasks that are done or wait. -/
structure Pool.Unfailed (exec : Bool → τ → Option (Work τ E ε)) (w₀ : Work τ E ε)
    (s : Pool τ E ε) (done : τ → Prop) : Prop where
  opened : s.closed = false
  first : w₀.errors = [] ∧ ∀ t ∈ w₀.spawn, t ∈ s.tasks ∨ done t
  did : ∀ t, done t → s.Did exec t
  spawned : ∀ t w, done t → exec false t = some w → ∀ t' ∈ w.spawn, t' ∈ s.tasks ∨ done t'

/-- A task ends without an error. -/
theorem Pool.Unfailed.after {done : τ → Prop} (h : s.Unfailed exec w₀ done) {i : ℕ} {t : τ}
    {w : Work τ E ε} (hi : s.tasks[i]? = some t) (hw : exec s.closed t = some w)
    (hok : w.errors = []) : (s.after i w).Unfailed exec w₀ (fun t' => t' = t ∨ done t') := by
  rw [h.opened] at hw
  -- a task that waited before waits on or is the one that ran
  have hkeep : ∀ t', t' ∈ s.tasks ∨ done t' →
      t' ∈ (s.after i w).tasks ∨ t' = t ∨ done t' := by
    intro t' ht'
    rcases ht' with ht' | ht'
    · rcases eq_or_mem_eraseIdx hi ht' with rfl | ht'
      · exact .inr (.inl rfl)
      · exact .inl (mem_append_right _ ht')
    · exact .inr (.inr ht')
  refine ⟨h.opened, ⟨h.first.1, fun t' ht' => hkeep t' (h.first.2 t' ht')⟩, ?_, ?_⟩
  · rintro t' (rfl | ht')
    · exact ⟨w, hw, hok, fun e he => mem_append_right _ he⟩
    · obtain ⟨w', hw', hok', he'⟩ := h.did t' ht'
      exact ⟨w', hw', hok', fun e he => mem_append_left _ (he' e he)⟩
  · rintro t' w' (rfl | ht') hw' t'' ht''
    · have hsame : w' = w := Option.some.inj (hw'.symm.trans hw)
      subst hsame
      exact .inl (mem_append_left _ ht'')
    · exact hkeep t'' (h.spawned t' w' ht' hw' t'' ht'')

/-- **A job that finishes without an error has done all its work**, whatever the schedule. -/
theorem Pool.clean (h : finish exec w₀ turns = some s) (hok : s.errors = []) :
    w₀.errors = [] ∧ (∀ e ∈ w₀.effects, e ∈ s.effects) ∧
      ∀ t, Descends exec w₀ t → s.Did exec t := by
  have hinv : s.errors = [] → (∃ done, s.Unfailed exec w₀ done) ∧
      ∀ e ∈ w₀.effects, e ∈ s.effects := by
    refine run_invariant
      (P := fun s : Pool τ E ε => s.errors = [] →
        (∃ done, s.Unfailed exec w₀ done) ∧ ∀ e ∈ w₀.effects, e ∈ s.effects)
      ?_ ?_ (finish_eq_some h).1
    · intro s a s' ih hstep hok'
      rcases Pool.step_cases hstep with ⟨i, t, w, hti, hw, rfl⟩ | ⟨hne, rfl⟩
      · obtain ⟨hs, hw'⟩ := append_eq_nil_iff.1 hok'
        obtain ⟨⟨done, hdone⟩, heff⟩ := ih hs
        exact ⟨⟨_, hdone.after hti hw hw'⟩, fun e he => mem_append_left _ (heff e he)⟩
      · exact absurd hok' hne
    · intro hok'
      exact ⟨⟨fun _ => False, rfl, ⟨hok', fun t ht => .inl ht⟩, fun _ hf => hf.elim,
        fun _ _ hf => hf.elim⟩, fun e he => he⟩
  obtain ⟨⟨done, hdone⟩, heff⟩ := hinv hok
  have hempty := (finish_eq_some h).2
  have hall : ∀ t, Descends exec w₀ t → done t := by
    intro t ht
    induction ht with
    | first hmem =>
      rcases hdone.first.2 _ hmem with hwait | hd
      · rw [hempty] at hwait
        cases hwait
      · exact hd
    | spawned _ hw hmem ih =>
      rcases hdone.spawned _ _ ih hw _ hmem with hwait | hd
      · rw [hempty] at hwait
        cases hwait
      · exact hd
  exact ⟨hdone.first.1, heff, fun t ht => hdone.did t (hall t ht)⟩

/-! ## Counting and finishing -/

theorem Pool.count_le (h : finish exec w₀ turns = some s) : w₀.count ≤ s.count := by
  refine run_invariant (P := fun s : Pool τ E ε => w₀.count ≤ s.count) ?_ (Nat.le_refl _)
    (finish_eq_some h).1
  intro s a s' ih hstep
  rcases Pool.step_cases hstep with ⟨i, t, w, _, _, rfl⟩ | ⟨_, rfl⟩
  · exact Nat.le_trans ih (Nat.le_add_right _ _)
  · exact ih

/-- A pool without tasks. -/
theorem Pool.eq_start (hspawn : w₀.spawn = []) (h : finish exec w₀ turns = some s) :
    s.count = w₀.count ∧ s.effects = w₀.effects ∧ s.errors = w₀.errors := by
  have hinv : s.tasks = [] ∧ s.count = w₀.count ∧ s.effects = w₀.effects ∧
      s.errors = w₀.errors := by
    refine run_invariant
      (P := fun s : Pool τ E ε => s.tasks = [] ∧ s.count = w₀.count ∧
        s.effects = w₀.effects ∧ s.errors = w₀.errors)
      ?_ ⟨hspawn, rfl, rfl, rfl⟩ (finish_eq_some h).1
    rintro s a s' ⟨htasks, hrest⟩ hstep
    rcases Pool.step_cases hstep with ⟨i, t, w, hti, _, rfl⟩ | ⟨_, rfl⟩
    · rw [htasks] at hti
      cases hti
    · exact ⟨htasks, hrest⟩
  exact hinv.2

/-- A task that can be run to its end, with all it spawns, before anything else. -/
def Drains (exec : Bool → τ → Option (Work τ E ε)) (t : τ) : Prop :=
  ∀ (s : Pool τ E ε) (rest : List τ), s.tasks = t :: rest →
    ∃ turns s', run (Pool.step exec) s turns = some s' ∧ s'.tasks = rest

/-- Tasks drain one after the other. -/
theorem drains_list {ts} (h : ∀ t ∈ ts, Drains exec t) (s : Pool τ E ε)
    (rest : List τ) (hs : s.tasks = ts ++ rest) :
    ∃ turns s', run (Pool.step exec) s turns = some s' ∧ s'.tasks = rest := by
  induction ts generalizing s with
  | nil => exact ⟨[], s, rfl, hs⟩
  | cons t ts ih =>
    obtain ⟨turns, s₁, h₁, hs₁⟩ := h t mem_cons_self s (ts ++ rest) hs
    obtain ⟨turns', s₂, h₂, hs₂⟩ := ih (fun t' ht' => h t' (mem_cons_of_mem _ ht')) s₁ hs₁
    exact ⟨turns ++ turns', s₂, by rw [run_append h₁]; exact h₂, hs₂⟩

/-- **Some schedule finishes** when every task within `P` does its work and spawns tasks of
lower rank within `P`. -/
theorem exists_finish {ι : Type} {P : τ → Prop} {rank : τ → ι} {r : ι → ι → Prop}
    (hr : WellFounded r)
    (hexec : ∀ b t, P t → ∃ w, exec b t = some w ∧ ∀ t' ∈ w.spawn, P t' ∧ r (rank t') (rank t))
    (h₀ : ∀ t ∈ w₀.spawn, P t) : ∃ turns s, finish exec w₀ turns = some s := by
  have hdrain : ∀ i t, rank t = i → P t → Drains exec t := by
    intro i
    induction i using hr.induction with
    | _ i ih =>
      intro t ht hP s rest hs
      obtain ⟨w, hw, hspawn⟩ := hexec s.closed t hP
      have hstep : s.step exec (.run 0) = some (s.after 0 w) := by
        simp [Pool.step, hs, hw]
      have htasks : (s.after 0 w).tasks = w.spawn ++ rest := by
        simp [Pool.after, hs]
      have hlist : ∀ t' ∈ w.spawn, Drains exec t' := by
        intro t' ht'
        exact ih _ (ht ▸ (hspawn t' ht').2) t' rfl (hspawn t' ht').1
      obtain ⟨turns, s', hrun, hs'⟩ := drains_list hlist (s.after 0 w) rest htasks
      refine ⟨.run 0 :: turns, s', ?_, hs'⟩
      rw [run, hstep, Option.bind_some]
      exact hrun
  have hlist : ∀ t ∈ w₀.spawn, Drains exec t := fun t ht => hdrain _ t rfl (h₀ t ht)
  obtain ⟨turns, s, hrun, hs⟩ := drains_list hlist (Pool.start w₀) [] (by simp [Pool.start])
  refine ⟨turns, s, ?_⟩
  unfold finish
  rw [hrun]
  simp [Option.filter, hs]

end ContainerRegistry.Library
