import ContainerRegistry.Model.Notifications

/-!
# The event queue delivers what it accepts

A run in which no `Write` passes the nil slice is in one of four phases (`Phase`). No block is lost
(`Kept`), and the steps of `run` lower a measure (`work`). A nil block makes `run` return while the
queue is open.
-/

namespace ContainerRegistry.Analysis.Queues

open Model.Notifications Model.Notifications.EventQueue List
open Library (Reach exists_reach run_length_le)

variable {ε : Type}

/-- The step passes no nil slice to `Write`. -/
def NoNil (_ : State ε) (m : Move ε) : Prop := m ≠ .write none

instance [DecidableEq ε] (s : State ε) (m : Move ε) : Decidable (NoNil s m) :=
  inferInstanceAs (Decidable (m ≠ .write none))

/-! ## Phases -/

def Going : Loop ε → Prop
  | .next => True
  | .took b => b ≠ none
  | .writing _ => True
  | .waiting => False
  | .returned => False

inductive Phase (s : State ε) : Prop where
  | going (hclosed : s.closed = false) (hloop : Going s.loop) (hcloser : s.closer = .none)
      (hnotify : s.notify = [])
  | waiting (hclosed : s.closed = false) (hloop : s.loop = .waiting) (hcloser : s.closer = .none)
      (hnotify : s.notify = [.run]) (hevents : s.events = [])
  | flushing (hclosed : s.closed = true) (hloop : Going s.loop) (hcloser : s.closer = .waiting)
      (hnotify : s.notify = [.close])
  | flushed (hclosed : s.closed = true) (hloop : s.loop = .returned)
      (hcloser : s.closer = .woken ∨ s.closer = .returned) (hnotify : s.notify = [])
      (hevents : s.events = [])

/-- The block `run` has taken and not yet passed on. -/
def held : Loop ε → List (Block ε)
  | .took b => [b]
  | _ => []

/-- No block is lost, and the wrapped sink is closed by the end of `Close`, after them. -/
structure Kept (s : State ε) : Prop where
  no_nil : none ∉ s.events
  accepted : s.accepted = s.delivered ++ held s.loop ++ s.events
  calls : s.calls = s.delivered.map Call.write ++ if s.closer = .returned then [.close] else []

structure Sound (s : State ε) : Prop where
  phase : Phase s
  kept : Kept s

variable {s t : State ε}

/-- Only the blocks and the calls matter. -/
theorem Kept.frame (h : Kept s) (hevents : t.events = s.events) (hloop : held t.loop = held s.loop)
    (hcalls : t.calls = s.calls) (hreturns : t.accepted = s.accepted)
    (hcloser : t.closer = .returned ↔ s.closer = .returned) : Kept t where
  no_nil := hevents ▸ h.no_nil
  accepted := by
    unfold State.delivered
    rw [hreturns, hloop, hevents, hcalls]
    exact h.accepted
  calls := by
    have heq := h.calls
    unfold State.delivered at heq ⊢
    rw [hcalls]
    simpa only [hcloser] using heq

/-- A block is accepted. -/
theorem Kept.accept (h : Kept s) {b : Block ε} (hb : b ≠ none)
    (hevents : t.events = s.events ++ [b]) (hloop : held t.loop = held s.loop)
    (hcalls : t.calls = s.calls) (hreturns : t.returns = s.returns ++ [.write b none])
    (hcloser : t.closer = s.closer) : Kept t where
  no_nil := by
    rw [hevents, mem_append, not_or]
    exact ⟨h.no_nil, fun hmem => hb (mem_singleton.1 hmem).symm⟩
  accepted := by
    have hacc := h.accepted
    unfold State.accepted State.delivered at hacc ⊢
    rw [hreturns, hloop, hevents, hcalls, filterMap_append, hacc]
    simp [Return.accepted]
  calls := by
    have heq := h.calls
    unfold State.delivered at heq ⊢
    rw [hcalls, hcloser]
    exact heq

variable {s : State ε}

/-- A `Write` on the closed queue is refused and leaves no other trace. -/
theorem write_of_closed (h : s.closed = true) (b : Block ε) :
    write s b = { s with returns := s.returns ++ [.write b (some errSinkClosed)] } :=
  if_pos h

/-- A block is written, -/
theorem Sound.write (h : Sound s) {b : Block ε} (hb : b ≠ none) : Sound (write s b) := by
  have hrefused : s.closed = true → Kept (EventQueue.write s b) := by
    intro hclosed
    rw [write_of_closed hclosed]
    refine h.kept.frame rfl rfl rfl ?_ Iff.rfl
    simp [State.accepted, Return.accepted]
  cases h.phase with
  | going hclosed hloop hcloser hnotify =>
    have heq : EventQueue.write s b = { s with
        ingress := s.ingress ++ [b], events := s.events ++ [b],
        returns := s.returns ++ [.write b none] } := by
      simp [EventQueue.write, signal, hclosed, hnotify]
    rw [heq]
    exact ⟨.going hclosed hloop hcloser hnotify, h.kept.accept hb rfl rfl rfl rfl rfl⟩
  | waiting hclosed hloop hcloser hnotify hevents =>
    have heq : EventQueue.write s b = { s with
        ingress := s.ingress ++ [b], events := s.events ++ [b], notify := [], loop := .next,
        returns := s.returns ++ [.write b none] } := by
      simp [EventQueue.write, signal, wake, hclosed, hnotify]
    rw [heq]
    refine ⟨.going hclosed trivial hcloser rfl, h.kept.accept hb rfl ?_ rfl rfl rfl⟩
    rw [hloop]
    rfl
  | flushing hclosed hloop hcloser hnotify =>
    refine ⟨?_, hrefused hclosed⟩
    rw [write_of_closed hclosed]
    exact .flushing hclosed hloop hcloser hnotify
  | flushed hclosed hloop hcloser hnotify hevents =>
    refine ⟨?_, hrefused hclosed⟩
    rw [write_of_closed hclosed]
    exact .flushed hclosed hloop hcloser hnotify hevents

/-- and the queue closed. -/
theorem Sound.close (h : Sound s) : Sound (close s) := by
  have hagain : s.closed = true → EventQueue.close s =
      { s with returns := s.returns ++ [.close (some "eventqueue: already closed")] } :=
    fun hclosed => if_pos hclosed
  have hkept : s.closed = true → Kept (EventQueue.close s) := by
    intro hclosed
    rw [hagain hclosed]
    refine h.kept.frame rfl rfl rfl ?_ Iff.rfl
    simp [State.accepted, Return.accepted]
  cases h.phase with
  | going hclosed hloop hcloser hnotify =>
    have heq : EventQueue.close s =
        { s with closed := true, notify := [.close], closer := .waiting } := by
      simp [EventQueue.close, signal, hclosed, hnotify]
    rw [heq]
    exact ⟨.flushing rfl hloop rfl rfl, h.kept.frame rfl rfl rfl rfl (by simp [hcloser])⟩
  | waiting hclosed hloop hcloser hnotify hevents =>
    have heq : EventQueue.close s =
        { s with closed := true, notify := [.close], closer := .waiting, loop := .next } := by
      simp [EventQueue.close, signal, wake, hclosed, hnotify]
    rw [heq]
    refine ⟨.flushing rfl trivial rfl rfl, h.kept.frame rfl ?_ rfl rfl (by simp [hcloser])⟩
    rw [hloop]
    rfl
  | flushing hclosed hloop hcloser hnotify =>
    refine ⟨?_, hkept hclosed⟩
    rw [hagain hclosed]
    exact .flushing hclosed hloop hcloser hnotify
  | flushed hclosed hloop hcloser hnotify hevents =>
    refine ⟨?_, hkept hclosed⟩
    rw [hagain hclosed]
    exact .flushed hclosed hloop hcloser hnotify hevents

/-! ## The goroutine -/

/-- What is left to be done by `run` and by the end of `Close`. -/
def work (s : State ε) : ℕ :=
  3 * s.events.length +
    (match s.loop with
      | .took _ => 3
      | .writing _ => 2
      | .next => 1
      | .waiting => 0
      | .returned => 0) +
    (match s.closer with
      | .none => 1
      | .waiting => 1
      | .woken => 1
      | .returned => 0)

/-- The loop goes on. -/
theorem Phase.goes (h : Phase s) (hgoing : Going s.loop) (ht : Going t.loop)
    (hclosed : t.closed = s.closed) (hcloser : t.closer = s.closer)
    (hnotify : t.notify = s.notify) : Phase t := by
  cases h with
  | going h₁ _ h₃ h₄ => exact .going (hclosed.trans h₁) ht (hcloser.trans h₃) (hnotify.trans h₄)
  | waiting _ h₂ _ _ _ =>
    rw [h₂] at hgoing
    exact hgoing.elim
  | flushing h₁ _ h₃ h₄ =>
    exact .flushing (hclosed.trans h₁) ht (hcloser.trans h₃) (hnotify.trans h₄)
  | flushed _ h₂ _ _ _ =>
    rw [h₂] at hgoing
    exact hgoing.elim

/-- INTERNAL: `run` finds the list empty. It waits while the queue is open, and wakes `Close` after
that. -/
theorem run_of_empty (h : Sound s) (hloop : s.loop = .next) (hevents : s.events = []) :
    ∃ t, EventQueue.run s = some t ∧ Sound t ∧ work t < work s := by
  have hgoing : Going s.loop := by
    rw [hloop]
    trivial
  cases h.phase with
  | going hclosed _ hcloser hnotify =>
    refine ⟨{ s with notify := [.run], loop := .waiting }, ?_, ⟨?_, ?_⟩, ?_⟩
    · simp [EventQueue.run, EventQueue.next, hloop, hevents, hclosed, hnotify]
    · exact .waiting hclosed rfl hcloser rfl hevents
    · refine h.kept.frame rfl ?_ rfl rfl Iff.rfl
      rw [hloop]
      rfl
    · simp only [work, hloop]
      omega
  | flushing hclosed _ hcloser hnotify =>
    refine ⟨{ s with notify := [], loop := .returned, closer := .woken }, ?_, ⟨?_, ?_⟩, ?_⟩
    · simp [EventQueue.run, EventQueue.next, broadcast, wake, hloop, hevents, hclosed, hnotify]
    · exact .flushed hclosed rfl (.inl rfl) rfl hevents
    · refine h.kept.frame rfl ?_ rfl rfl (by simp [hcloser])
      rw [hloop]
      rfl
    · simp only [work, hloop, hcloser]
      omega
  | waiting _ hwait _ _ _ => cases hloop.symm.trans hwait
  | flushed _ hret _ _ _ => cases hloop.symm.trans hret

/-- The loop takes the next block. -/
theorem run_of_cons (h : Sound s) (hloop : s.loop = .next) {b rest}
    (hevents : s.events = b :: rest) :
    ∃ t, EventQueue.run s = some t ∧ Sound t ∧ work t < work s := by
  have hgoing : Going s.loop := by
    rw [hloop]
    trivial
  have hb : b ≠ none := fun hnil => h.kept.no_nil (by simp [hevents, hnil])
  refine ⟨{ s with events := rest, loop := .took b }, ?_, ⟨?_, ?_, ?_, ?_⟩, ?_⟩
  · obtain ⟨l, rfl⟩ := Option.ne_none_iff_exists'.1 hb
    simp [EventQueue.run, EventQueue.next, hloop, hevents]
  · exact h.phase.goes hgoing hb rfl rfl rfl
  · intro hmem
    exact h.kept.no_nil (by simp [hevents, hmem])
  · have hacc := h.kept.accepted
    rw [hloop, hevents] at hacc
    simpa [held, State.accepted, State.delivered] using hacc
  · exact h.kept.calls
  · simp only [work, hloop, hevents, length_cons]
    omega

theorem Sound.not_returned (h : Sound s) (hgoing : Going s.loop) : s.closer ≠ .returned := by
  cases h.phase with
  | going _ _ hcloser _ | waiting _ _ hcloser _ _ | flushing _ _ hcloser _ => simp [hcloser]
  | flushed _ hloop _ _ _ =>
    rw [hloop] at hgoing
    exact hgoing.elim

/-- **While `run` neither waits nor has returned it has a step**, which keeps the blocks and lowers
the measure. -/
theorem run_of_going (h : Sound s) (hgoing : Going s.loop) :
    ∃ t, EventQueue.run s = some t ∧ Sound t ∧ work t < work s := by
  have hcloser := h.not_returned hgoing
  cases hloop : s.loop with
  | next =>
    cases hevents : s.events with
    | nil => exact run_of_empty h hloop hevents
    | cons b rest => exact run_of_cons h hloop hevents
  | took b =>
    refine ⟨{ s with calls := s.calls ++ [.write b], loop := .writing b }, ?_, ⟨?_, ?_, ?_, ?_⟩, ?_⟩
    · simp [EventQueue.run, hloop]
    · exact h.phase.goes hgoing trivial rfl rfl rfl
    · exact h.kept.no_nil
    · have hacc := h.kept.accepted
      rw [hloop] at hacc
      simpa [held, State.accepted, State.delivered, Call.block] using hacc
    · have hcalls := h.kept.calls
      rw [if_neg hcloser, append_nil] at hcalls
      simp only [if_neg hcloser, append_nil, State.delivered, filterMap_append]
      rw [map_append, ← State.delivered, ← hcalls]
      rfl
    · simp only [work, hloop]
      omega
  | writing b =>
    refine ⟨{ s with egress := s.egress ++ [b], loop := .next }, ?_, ⟨?_, ?_⟩, ?_⟩
    · simp [EventQueue.run, hloop]
    · exact h.phase.goes hgoing trivial rfl rfl rfl
    · refine h.kept.frame rfl ?_ rfl rfl Iff.rfl
      rw [hloop]
      rfl
    · simp only [work, hloop]
      omega
  | waiting | returned =>
    rw [hloop] at hgoing
    exact hgoing.elim

/-- A write to the sink ends. -/
theorem Sound.finish (h : Sound s) {err} (hstep : step s (.finish err) = some t) :
    Sound t ∧ work t < work s := by
  simp only [step] at hstep
  split at hstep
  next hwoken =>
    cases hstep
    refine ⟨⟨?_, ?_, ?_, ?_⟩, ?_⟩
    · cases h.phase with
      | going _ _ hcloser _ | waiting _ _ hcloser _ _ | flushing _ _ hcloser _ =>
        simp [hwoken] at hcloser
      | flushed hclosed hloop _ hnotify hevents =>
        exact .flushed hclosed hloop (.inr rfl) hnotify hevents
    · exact h.kept.no_nil
    · have hacc := h.kept.accepted
      simpa [State.accepted, State.delivered, Call.block, Return.accepted, filterMap_cons]
        using hacc
    · have hcalls := h.kept.calls
      rw [hwoken] at hcalls
      simp only [State.delivered, filterMap_append] at hcalls ⊢
      simpa [Call.block, filterMap_cons] using hcalls
    · simp only [work, hwoken]
      omega
  next => cases hstep

def Internal (m : Move ε) : Prop := m = .run ∨ ∃ err, m = .finish err

/-- The goroutine takes a step. -/
theorem Sound.internal (h : Sound s) {m} (hm : Internal m) (hstep : step s m = some t) :
    Sound t ∧ work t < work s := by
  rcases hm with rfl | ⟨err, rfl⟩
  · have hgoing : Going s.loop := by
      cases hphase : h.phase with
      | going _ hloop _ _ | flushing _ hloop _ _ => exact hloop
      | waiting _ hloop _ _ _ | flushed _ hloop _ _ _ => simp [step, EventQueue.run, hloop] at hstep
    obtain ⟨t', ht', hsound, hlt⟩ := run_of_going h hgoing
    cases ht'.symm.trans hstep
    exact ⟨hsound, hlt⟩
  · exact h.finish hstep

theorem sound_newEventQueue : Sound (newEventQueue : State ε) :=
  ⟨.going rfl trivial rfl rfl, by simp [newEventQueue], rfl, rfl⟩

/-- **Every state of a run without nil blocks is sound.** -/
theorem sound_of_reach (h : Reach step NoNil newEventQueue s) : Sound s := by
  refine Reach.invariant (P := Sound) sound_newEventQueue ?_ h
  intro s m s' _ hs hok hstep
  cases m with
  | write b =>
    cases hstep
    exact hs.write fun hb => hok (by rw [hb])
  | close =>
    cases hstep
    exact hs.close
  | run => exact (hs.internal (.inl rfl) hstep).1
  | finish err => exact (hs.finish hstep).1

/-! ## Delivery -/

structure Delivers (s : State ε) : Prop where
  /-- The blocks passed on are those accepted, in this order. -/
  in_order : s.delivered <+: s.accepted
  before_close : Call.close ∈ s.calls → s.calls = s.accepted.map Call.write ++ [.close]
  refused : s.closed = true → ∀ b, step s (.write b) =
    some { s with returns := s.returns ++ [.write b (some errSinkClosed)] }
  /-- `run` does not return, and the wrapped sink is not closed, before `Close` was called and the
  list is empty. -/
  not_early : s.loop = .returned ∨ Call.close ∈ s.calls → s.closed = true ∧ s.events = []
  /-- Without calls from outside the queue comes to rest. -/
  settles : ∀ as s', (∀ m ∈ as, Internal m) → Library.run step s as = some s' → as.length ≤ work s
  /-- At rest, all blocks are delivered, and the wrapped sink is closed if `Close` was called. -/
  flushed : (∀ m, Internal m → step s m = none) →
    s.calls = s.accepted.map Call.write ++ if s.closed then [.close] else []

theorem Sound.mem_close_iff (h : Sound s) : Call.close ∈ s.calls ↔ s.closer = .returned := by
  rw [h.kept.calls]
  split
  next hret => simp [hret]
  next hret => simp [hret]

theorem Sound.delivered_eq (h : Sound s) (hheld : held s.loop = []) (hevents : s.events = []) :
    s.delivered = s.accepted := by
  rw [h.kept.accepted, hheld, hevents, append_nil, append_nil]

theorem Sound.of_returned (h : Sound s) (hret : s.closer = .returned) :
    s.loop = .returned ∧ s.closed = true ∧ s.events = [] := by
  cases h.phase with
  | going _ _ hcloser _ | waiting _ _ hcloser _ _ | flushing _ _ hcloser _ => simp [hret] at hcloser
  | flushed hclosed hloop _ _ hevents => exact ⟨hloop, hclosed, hevents⟩

/-- **At rest everything is delivered.** -/
theorem Sound.at_rest (h : Sound s) (hrest : ∀ m, Internal m → step s m = none) :
    s.calls = s.accepted.map Call.write ++ if s.closed then [.close] else [] := by
  have hnot : ¬ Going s.loop := by
    intro hgoing
    obtain ⟨t, ht, -⟩ := run_of_going h hgoing
    cases (hrest .run (.inl rfl)).symm.trans ht
  cases h.phase with
  | going _ hloop _ _ | flushing _ hloop _ _ => exact (hnot hloop).elim
  | waiting hclosed hloop hcloser _ hevents =>
    have hall := h.delivered_eq (by rw [hloop]; rfl) hevents
    have hcalls := h.kept.calls
    rw [hcloser, hall] at hcalls
    rw [hclosed, hcalls]
    rfl
  | flushed hclosed hloop hcloser _ hevents =>
    have hall := h.delivered_eq (by rw [hloop]; rfl) hevents
    have hcalls := h.kept.calls
    have hret : s.closer = .returned := by
      refine hcloser.resolve_left fun hwoken => ?_
      have hfinish := hrest (.finish none) (.inr ⟨none, rfl⟩)
      simp [step, hwoken] at hfinish
    rw [hret, hall] at hcalls
    rw [hclosed, hcalls]
    rfl

/-- **The event queue delivers what it accepts**, in every run in which no `Write` passes the nil
slice. -/
theorem queue_delivers {s : State ε} (h : Reach step NoNil newEventQueue s) : Delivers s := by
  have hsound := sound_of_reach h
  constructor
  case in_order =>
    rw [hsound.kept.accepted, append_assoc]
    exact prefix_append _ _
  case before_close =>
    intro hclose
    have hret := hsound.mem_close_iff.1 hclose
    obtain ⟨hloop, -, hevents⟩ := hsound.of_returned hret
    have hcalls := hsound.kept.calls
    rw [if_pos hret, hsound.delivered_eq (by rw [hloop]; rfl) hevents] at hcalls
    exact hcalls
  case refused =>
    intro hclosed b
    exact congrArg some (write_of_closed hclosed b)
  case not_early =>
    rintro (hloop | hclose)
    · cases hsound.phase with
      | going _ hgoing _ _ | flushing _ hgoing _ _ =>
        rw [hloop] at hgoing
        exact hgoing.elim
      | waiting _ hwait _ _ _ => cases hloop.symm.trans hwait
      | flushed hclosed _ _ _ hevents => exact ⟨hclosed, hevents⟩
    · exact (hsound.of_returned (hsound.mem_close_iff.1 hclose)).2
  case settles =>
    intro as s' has hrun
    exact run_length_le (P := Sound) (fun s m s' hs hm hstep => hs.internal hm hstep)
      hsound has hrun
  case flushed => exact hsound.at_rest

/-- Two blocks, the second one without events, and a `Close`. -/
theorem queue_delivers_two : ∃ s : State ℕ, Reach step NoNil newEventQueue s ∧
    s.calls = [.write (some [1, 2]), .write (some []), .close] ∧ Delivers s := by
  obtain ⟨s, hreach, hcalls⟩ : ∃ s : State ℕ, Reach step NoNil newEventQueue s ∧
      s.calls = [.write (some [1, 2]), .write (some []), .close] :=
    exists_reach [.run, .write (some [1, 2]), .run, .write (some []), .run, .close, .run, .run,
      .run, .run, .run, .finish none] (by decide +kernel)
  exact ⟨s, hreach, hcalls, queue_delivers hreach⟩

/-- After a `Write` without arguments `run` returns though the queue is open, the next block stays
in the list, and `Close` waits for ever. -/
theorem nil_block_ends_queue :
    (∃ s : State ℕ, Reach step (fun _ _ => True) newEventQueue s ∧
      s.loop = .returned ∧ s.closed = false) ∧
    ∃ s : State ℕ, Reach step (fun _ _ => True) newEventQueue s ∧ s.closed = true ∧
      s.accepted = [none, some [1]] ∧ s.events = [some [1]] ∧ s.calls = [] ∧
        step s .run = none ∧ s.closer = .waiting := by
  constructor
  · exact exists_reach [.write none, .run] (by decide +kernel)
  · exact exists_reach [.write none, .run, .write (some [1]), .close] (by decide +kernel)

end ContainerRegistry.Analysis.Queues
