import ContainerRegistry.Library.RowStore
import Mathlib.Order.Basic

/-!
# Waiting for row locks in an order

A transaction waits for at most one key, and so for whoever holds it. A deadlock is a cycle of this
relation, and there is none if no transaction waits for a key unless every key it holds is smaller
(`Ordered.no_deadlock`).

`Store.seize` takes one lock ahead of the statement that needs it.
-/

namespace ContainerRegistry.Library

open List

section Waiting

variable {T K : Type} {waiting : T → Option K} {held : T → K → Prop}

/-- Transaction `t` waits for a key that `u` holds. -/
def WaitsFor (waiting : T → Option K) (held : T → K → Prop) (t u : T) : Prop :=
  ∃ k, waiting t = some k ∧ held u k

instance [∀ u k, Decidable (held u k)] (t u : T) : Decidable (WaitsFor waiting held t u) :=
  match h : waiting t with
  | none => .isFalse fun ⟨_, hk, _⟩ => by rw [h] at hk; cases hk
  | some k =>
    if hu : held u k then .isTrue ⟨k, h, hu⟩
    else .isFalse fun ⟨k', hk, hu'⟩ => by
      rw [h, Option.some.injEq] at hk
      exact hu (hk ▸ hu')

def Deadlock (waiting : T → Option K) (held : T → K → Prop) : Prop :=
  ∃ t, Relation.TransGen (WaitsFor waiting held) t t

theorem Deadlock.of_pair {t u} (htu : WaitsFor waiting held t u)
    (hut : WaitsFor waiting held u t) : Deadlock waiting held :=
  ⟨t, .tail (.single htu) hut⟩

/-- Whoever waits for a key holds smaller ones only. -/
def Ordered [Preorder K] (waiting : T → Option K) (held : T → K → Prop) : Prop :=
  ∀ t k, waiting t = some k → ∀ k', held t k' → k' < k

variable [Preorder K]

/-- INTERNAL: the rule for one step. Whoever waits after it has waited before and holds no more
than it did, or holds smaller keys only. -/
theorem Ordered.step {waiting' : T → Option K} {held' : T → K → Prop} (h : Ordered waiting held)
    (hstep : ∀ t k, waiting' t = some k →
      (waiting t = some k ∧ ∀ k', held' t k' → held t k') ∨ ∀ k', held' t k' → k' < k) :
    Ordered waiting' held' := by
  intro t k ht k' hk'
  rcases hstep t k ht with ⟨hwait, hsame⟩ | hless
  · exact h t k hwait k' (hsame k' hk')
  · exact hless k' hk'

/-- Along a chain of waits records go up. -/
theorem Ordered.lt_of_chain (h : Ordered waiting held) {t u}
    (hchain : Relation.TransGen (WaitsFor waiting held) t u) {k k'}
    (ht : waiting t = some k) (hu : waiting u = some k') : k < k' := by
  induction hchain generalizing k' with
  | single hwait =>
    obtain ⟨k₁, h₁, hheld⟩ := hwait
    rw [ht] at h₁
    cases h₁
    exact h _ _ hu _ hheld
  | tail _ hwait ih =>
    obtain ⟨k₁, h₁, hheld⟩ := hwait
    exact (ih h₁).trans (h _ _ hu _ hheld)

/-- **Lock ordering excludes deadlock.** -/
theorem Ordered.no_deadlock (h : Ordered waiting held) : ¬ Deadlock waiting held := by
  rintro ⟨t, hcycle⟩
  obtain ⟨u, ⟨k, hk, -⟩, -⟩ := Relation.TransGen.head'_iff.1 hcycle
  exact lt_irrefl k (h.lt_of_chain hcycle hk hk)

end Waiting

section Seizing

variable {R K T : Type} {S : Schema R K}

/-- Transaction `t` takes the exclusive lock on `k`, ahead of the statement that needs it. -/
def Store.seize (s : Store R K T) (t : T) (k : K) : Store R K T :=
  { s with locks := ⟨t, k, .exclusive⟩ :: s.locks }

theorem Store.mem_seize_locks_of_ne (s : Store R K T) {t u} (k : K) (hu : u ≠ t)
    {l} (hl : l.owner = u) : l ∈ (s.seize t k).locks ↔ l ∈ s.locks := by
  constructor
  · intro h
    rcases mem_cons.1 h with rfl | h
    · exact absurd hl.symm hu
    · exact h
  · exact mem_cons_of_mem _

theorem Store.mem_release_locks_of_ne [DecidableEq T] (s : Store R K T) {t u} (db : List R)
    (hu : u ≠ t) {l} (hl : l.owner = u) : l ∈ (s.release t db).locks ↔ l ∈ s.locks := by
  rw [Store.mem_release_locks]
  exact and_iff_left (hl ▸ hu)

variable [DecidableEq R]

theorem Store.mem_staged_locks_of_ne [DecidableEq T] (s : Store R K T) {t u} (e : Effect R K)
    (hu : u ≠ t) {l} (hl : l.owner = u) : l ∈ (s.staged S t e).locks ↔ l ∈ s.locks := by
  refine ⟨fun h => ?_, Store.mem_staged_locks⟩
  rcases mem_append.1 h with h | h
  · have howner : l.owner = t := by
      simp only [Effect.locks, mem_append, mem_map] at h
      rcases h with ⟨_, _, rfl⟩ | ⟨_, _, rfl⟩ <;> rfl
    exact absurd (hl.symm.trans howner) hu
  · exact h

/-- A free lock is taken. -/
theorem Sound.seize {s : Store R K T} (h : Sound S s) {t : T} {k : K}
    (hfree : s.Free t k .exclusive) : Sound S (s.seize t k) where
  exclusion := by
    intro a b k' ha m hb
    simp only [Store.Holds, Store.seize, mem_cons, Lock.mk.injEq] at ha hb
    -- the new lock meets an old one only inside one transaction
    have clash : ∀ {c : T} {m' : Mode}, ⟨c, k, m'⟩ ∈ s.locks → c = t := by
      intro c m' hc
      rcases hfree _ hc rfl with hct | hcomp
      · exact hct
      · cases m' <;> simp [Mode.compatible] at hcomp
    rcases ha with ⟨hat, hk, -⟩ | ha <;> rcases hb with ⟨hbt, hk', -⟩ | hb
    · rw [hat, hbt]
    · exact (clash (hk ▸ hb)).trans hat.symm
    · exact hbt.trans (clash (hk' ▸ ha)).symm
    · exact h.exclusion a b k' ha m hb
  written := fun u r hr k' hk' => mem_cons_of_mem _ (h.written u r hr k' hk')
  shared := fun u r hr k' hk' => by
    obtain ⟨m, hm⟩ := h.shared u r hr k' hk'
    exact ⟨m, mem_cons_of_mem _ hm⟩
  views := h.views
  base := h.base

end Seizing

end ContainerRegistry.Library
