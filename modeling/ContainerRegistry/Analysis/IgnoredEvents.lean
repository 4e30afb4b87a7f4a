import ContainerRegistry.Model.Notifications

/-!
# Events that are ignored

Without ignored media types the sink is the wrapped one, which then gets ignored actions too.
-/

namespace ContainerRegistry.Analysis.IgnoredEvents

open Model.Notifications.IgnoredSink List

variable {ε σ : Type} (ignored ignoreActions : List String)

/-- The event is published: neither its media type nor its action is ignored. -/
def published (e : Event ε) : Bool :=
  !ignored.contains e.mediaType && !ignoreActions.contains e.action

/-- What is passed on for some blocks: their published events in order, and no empty block. -/
def Filters (blocks passed : List (List (Event ε))) : Prop :=
  passed.flatten = blocks.flatten.filter (published ignored ignoreActions) ∧ [] ∉ passed

variable {ignored ignoreActions}

/-- Only what is published reaches the sink. -/
theorem write_eq {sink : Sink ε σ} {events s} : write sink ignored ignoreActions events s =
    if (events.filter (published ignored ignoreActions)).isEmpty then (none, s)
    else sink (events.filter (published ignored ignoreActions)) s := by
  have hresults : (events.filter fun e => !ignored.contains e.mediaType).filter
      (fun e => !ignoreActions.contains e.action) =
        events.filter (published ignored ignoreActions) := by
    rw [filter_filter]
    exact filter_congr fun e _ => Bool.and_comm _ _
  unfold write
  dsimp only
  rw [hresults]
  split
  next hkept =>
    rw [if_pos]
    rw [← hresults, List.isEmpty_iff.1 hkept]
    rfl
  next => rfl

/-- INTERNAL: **the filter at work** passes on what is left of each block, if anything is. -/
theorem exists_passed (blocks : List (List (Event ε))) : ∃ passed,
    Filters ignored ignoreActions blocks passed ∧ ∀ (σ : Type) (sink : Sink ε σ) (s : σ),
      writes (write sink ignored ignoreActions) blocks s = writes sink passed s := by
  induction blocks with
  | nil => exact ⟨[], ⟨rfl, not_mem_nil⟩, fun _ _ _ => rfl⟩
  | cons events blocks ih =>
    obtain ⟨passed, ⟨hflat, hnil⟩, hwrites⟩ := ih
    by_cases hempty : (events.filter (published ignored ignoreActions)).isEmpty = true
    · refine ⟨passed, ⟨?_, hnil⟩, fun σ sink s => ?_⟩
      · rw [flatten_cons, filter_append, List.isEmpty_iff.1 hempty, hflat, nil_append]
      · rw [writes, foldl_cons, write_eq, if_pos hempty]
        exact hwrites σ sink s
    · refine ⟨events.filter (published ignored ignoreActions) :: passed, ⟨?_, ?_⟩,
        fun σ sink s => ?_⟩
      · rw [flatten_cons, flatten_cons, filter_append, hflat]
      · rw [mem_cons, not_or]
        exact ⟨fun heq => hempty (List.isEmpty_iff.2 heq.symm), hnil⟩
      · rw [writes, foldl_cons, write_eq, if_neg hempty]
        exact hwrites σ sink _

/-- A sink that keeps the blocks written to it. -/
def recording : Sink ε (List (List (Event ε))) := fun events s => (none, s ++ [events])

theorem writes_recording (blocks s : List (List (Event ε))) :
    writes recording blocks s = s ++ blocks := by
  induction blocks generalizing s with
  | nil => exact (append_nil s).symm
  | cons events blocks ih =>
    rw [writes, foldl_cons]
    exact (ih _).trans (by simp [recording])

/-- **When ignored events are filtered**: when some media type is ignored, or there is no empty
block and no event with an ignored action. -/
theorem ignored_filtered_iff (blocks : List (List (Event ε))) :
    (∃ passed, Filters ignored ignoreActions blocks passed ∧
      ∀ (σ : Type) (sink : Sink ε σ) (s : σ),
        writes (newIgnoredSink sink ignored ignoreActions) blocks s = writes sink passed s) ↔
    ignored ≠ [] ∨ [] ∉ blocks ∧ ∀ events ∈ blocks, ∀ e ∈ events, e.action ∉ ignoreActions := by
  unfold newIgnoredSink
  by_cases hignored : ignored = []
  · subst hignored
    have hpublished : blocks.flatten = blocks.flatten.filter (published [] ignoreActions) ↔
        ∀ events ∈ blocks, ∀ e ∈ events, e.action ∉ ignoreActions := by
      rw [eq_comm, filter_eq_self]
      simp only [published, mem_flatten]
      grind
    constructor
    · rintro ⟨passed, ⟨hflat, hnil⟩, hwrites⟩
      have heq := hwrites _ recording []
      rw [if_pos isEmpty_nil, writes_recording, writes_recording] at heq
      obtain rfl : blocks = passed := heq
      exact .inr ⟨hnil, hpublished.1 hflat⟩
    · rintro (hne | ⟨hnil, hall⟩)
      · exact (hne rfl).elim
      · exact ⟨blocks, ⟨hpublished.2 hall, hnil⟩, fun _ _ _ => rfl⟩
  · refine iff_of_true ?_ (.inl hignored)
    simp only [List.isEmpty_iff, hignored, if_false]
    exact exists_passed blocks

/-- No media type is ignored, and a pull, which is, is passed on. -/
theorem ignored_pull_passed : writes (newIgnoredSink recording [] ["pull"])
    [[⟨"", "pull", ()⟩]] [] = [[⟨"", "pull", ()⟩]] :=
  rfl

end ContainerRegistry.Analysis.IgnoredEvents
