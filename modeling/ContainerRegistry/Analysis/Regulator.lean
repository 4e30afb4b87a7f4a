import ContainerRegistry.Model.Regulator

/-!
# The regulator lets every call through

The free places and the regulated calls inside add up to the limit. While a call waits, at least as
many calls have been woken as places are free, so no signal is lost.
-/

namespace ContainerRegistry.Analysis.Regulators

open Model.Regulators Library List

variable {limit : ℕ} {r r' : Regulator} {a : Action} {ok : Regulator → Action → Prop}

structure Inv (limit : ℕ) (r : Regulator) : Prop where
  places : r.available + r.inside.length = limit
  covered : r.notify ≠ [] → r.available ≤ r.woken.length

/-- A call that is woken may have to wait again, when another one has taken its place. -/
def work (r : Regulator) : ℕ :=
  2 * r.notify.length + 3 * r.woken.length + 2 * r.inside.length + r.bypassing.length

def Internal (a : Action) : Prop := ∀ m c, a ≠ .call m c

/-- INTERNAL: every step, by its case. -/
theorem Inv.step (h : Inv limit r) (hs : step r a = some r') :
    Inv limit r' ∧ (Internal a → work r' < work r) := by
  obtain ⟨hplaces, hcovered⟩ := h
  cases a with
  | call m c =>
    refine ⟨?_, fun ha => absurd rfl (ha m c)⟩
    rw [Model.Regulators.step] at hs
    split at hs <;> cases hs
    · unfold enter
      split <;> constructor <;> grind
    · exact ⟨hplaces, hcovered⟩
  | resume c =>
    obtain ⟨hc, hs⟩ := Option.ite_none_right_eq_some.1 hs
    cases hs
    unfold enter work
    split <;> refine ⟨⟨?_, ?_⟩, ?_⟩ <;> grind
  | exit c =>
    obtain ⟨hc, hs⟩ := Option.ite_none_right_eq_some.1 hs
    cases hs
    unfold exit signal work
    cases hn : r.notify <;> refine ⟨⟨?_, ?_⟩, ?_⟩ <;> grind
  | leave c =>
    obtain ⟨hc, hs⟩ := Option.ite_none_right_eq_some.1 hs
    cases hs
    unfold work
    refine ⟨⟨hplaces, hcovered⟩, ?_⟩
    grind

theorem inv_of_reach (h : Reach step ok (newRegulator limit) r) : Inv limit r :=
  h.invariant ⟨rfl, fun hne => absurd rfl hne⟩ fun _ _ _ _ hi _ hs => (hi.step hs).1

/-- **At most as many regulated calls are inside as the limit says**, and the counter never wraps
around, whatever calls bypass the regulator. -/
theorem limit_kept (h : Reach step ok (newRegulator limit) r) :
    r.inside.length ≤ limit ∧ r.available = limit - r.inside.length := by
  have hplaces := (inv_of_reach h).places
  omega

/-- Two calls for one place, while a walk bypasses it. -/
theorem one_place_kept : ∃ r, Reach step (fun _ _ => True) (newRegulator 1) r ∧
    (r.notify = [1] ∧ r.bypassing = [2]) ∧ r.inside.length ≤ 1 := by
  obtain ⟨r, hr, hn⟩ : ∃ r, Reach step (fun _ _ => True) (newRegulator 1) r ∧
      (r.notify = [1] ∧ r.bypassing = [2]) :=
    exists_reach [.call .stat 0, .call .list 1, .call .walk 2] (by decide)
  exact ⟨r, hr, hn, (limit_kept hr).1⟩

/-- **Every call gets inside and returns**, whatever the order: as long as there is a call, one that
is woken or inside has a step, and such steps come to an end. -/
theorem calls_return (hlimit : 0 < limit) (h : Reach step ok (newRegulator limit) r)
    {as : List Action} (has : ∀ a ∈ as, Internal a) (hrun : run step r as = some r') :
    as.length ≤ work r ∧ ((∀ a, Internal a → step r' a = none) →
      r'.notify = [] ∧ r'.woken = [] ∧ r'.inside = [] ∧ r'.bypassing = []) := by
  have hi := inv_of_reach h
  refine ⟨run_length_le (fun s a s' hi ha hs => (hi.step hs).imp_right (· ha)) hi has hrun,
    fun hstuck => ?_⟩
  obtain ⟨hplaces, hcovered⟩ : Inv limit r' :=
    run_invariant (fun _ _ _ hi hs => (hi.step hs).1) hi hrun
  have hwoken : r'.woken = [] := eq_nil_iff_forall_not_mem.2 fun c hc => by
    simpa [step, hc] using hstuck (.resume c) nofun
  have hinside : r'.inside = [] := eq_nil_iff_forall_not_mem.2 fun c hc => by
    simpa [step, hc] using hstuck (.exit c) nofun
  have hbypassing : r'.bypassing = [] := eq_nil_iff_forall_not_mem.2 fun c hc => by
    simpa [step, hc] using hstuck (.leave c) nofun
  refine ⟨?_, hwoken, hinside, hbypassing⟩
  by_contra hne
  have hle := hcovered hne
  rw [hwoken] at hle
  grind

/-- The first call returns and the second one is let in. -/
theorem second_call_returns : ∃ r r', Reach step (fun _ _ => True) (newRegulator 1) r ∧
    run step r [.exit 0, .resume 1, .exit 1] = some r' ∧ 3 ≤ work r := by
  obtain ⟨r, hr, rfl⟩ : ∃ r, Reach step (fun _ _ => True) (newRegulator 1) r ∧
      r = ⟨0, [1], [], [0], []⟩ := exists_reach [.call .stat 0, .call .list 1] (by decide)
  have hrun : run step ⟨0, [1], [], [0], []⟩ [.exit 0, .resume 1, .exit 1] =
      some (newRegulator 1) := rfl
  exact ⟨_, _, hr, hrun, (calls_return (by decide) hr (by simp [Internal]) hrun).1⟩

end ContainerRegistry.Analysis.Regulators
