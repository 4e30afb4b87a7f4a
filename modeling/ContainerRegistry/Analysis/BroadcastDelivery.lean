import ContainerRegistry.Model.Notifications

/-!
# The broadcaster and its close handshake

Only `run` calls the sinks, with each accepted block in turn (`Dispatched`). The handshake of
`Close` is safe in runs in which no other call can take the channel it hands over (`Exclusive`);
such a run is in one of four phases (`Phase`).
-/

namespace ContainerRegistry.Analysis.Broadcasts

open Model.Notifications Model.Notifications.Broadcaster
open Library (Reach exists_reach exists_run_replicate)

variable {ε : Type} {n : ℕ}

/-! ## What a step does -/

variable {who : Receiver} {s t : State ε} {c : Option ℕ}

theorem receive_eq_some (h : receive s who c = some t) :
    (c = none ∧ s.shut = true ∧ t = s) ∨
      ∃ j, c = some j ∧ s.closers[j]? = some .sending ∧
        t = { s with closers := s.closers.set j .sent, received := s.received ++ [(j, who)] } := by
  cases c <;> simp only [receive, Option.ite_none_right_eq_some, Option.some.injEq] at h <;>
    obtain ⟨hguard, rfl⟩ := h
  · exact .inl ⟨rfl, hguard, rfl⟩
  · exact .inr ⟨_, rfl, hguard, rfl⟩

variable {i : ℕ}

theorem accept_eq_some (h : accept s i = some t) :
    s.loop = .selecting ∧ ∃ b, s.writers[i]? = some b ∧
      t = { s with writers := s.writers.eraseIdx i, loop := .writing b 0,
                   returns := s.returns ++ [.write b none] } := by
  unfold accept at h
  split at h
  next b hloop hwriter =>
    cases h
    exact ⟨hloop, b, hwriter, rfl⟩
  next => cases h

theorem refuse_eq_some (h : refuse s i c = some t) :
    ∃ b s₁, s.writers[i]? = some b ∧ receive s .write c = some s₁ ∧
      t = { s₁ with writers := s₁.writers.eraseIdx i,
                    returns := s₁.returns ++ [.write b (some errSinkClosed)] } := by
  unfold refuse at h
  split at h
  next b s₁ hwriter hreceive =>
    cases h
    exact ⟨b, s₁, hwriter, hreceive, rfl⟩
  next => cases h

theorem reject_eq_some (h : reject s i c = some t) :
    ∃ s₁, s.closers[i]? = some .polling ∧ receive s .close c = some s₁ ∧
      t = { s₁ with closers := s₁.closers.set i .failed,
                    returns := s₁.returns ++ [.close (some "broadcaster: already closed")] } := by
  unfold reject at h
  split at h
  next s₁ hcloser hreceive =>
    cases h
    exact ⟨s₁, hcloser, hreceive, rfl⟩
  next => cases h

theorem take_eq_some (h : take s c = some t) :
    ∃ s₁, s.loop = .selecting ∧ receive s .run c = some s₁ ∧
      t = { s₁ with loop := .closing c 0 } := by
  unfold take at h
  split at h
  next s₁ hloop hreceive =>
    cases h
    exact ⟨s₁, hloop, hreceive, rfl⟩
  next => cases h

theorem acknowledge_eq_some (h : acknowledge s = some t) :
    ∃ j, s.loop = .acking (some j) ∧ s.closers[j]? = some .awaiting ∧
      t = { s with closers := s.closers.set j .returned, loop := .returned,
                   returns := s.returns ++ [.close none] } := by
  unfold acknowledge at h
  split at h
  next j hloop =>
    obtain ⟨hj, ⟨⟩⟩ := Option.ite_none_right_eq_some.1 h
    exact ⟨j, hloop, hj, rfl⟩
  next => cases h

/-- What a step of the loop can be. -/
theorem run_eq_some (h : Broadcaster.run n s = some t) :
    (∃ b k, s.loop = .writing b k ∧ k < n ∧
        t = { s with calls := s.calls ++ [(k, .write b)], loop := .writing b (k + 1) }) ∨
      (∃ b k, s.loop = .writing b k ∧ n ≤ k ∧ t = { s with loop := .selecting }) ∨
      (∃ c k, s.loop = .closing c k ∧ k < n ∧
        t = { s with calls := s.calls ++ [(k, .close)], loop := .closing c (k + 1) }) ∨
      ∃ c k, s.loop = .closing c k ∧ n ≤ k ∧ t = { s with loop := .acking c } := by
  unfold Broadcaster.run at h
  split at h
  next => cases h
  next b k hloop =>
    split at h
    next hk =>
      cases h
      exact .inl ⟨b, k, hloop, hk, rfl⟩
    next hk =>
      cases h
      exact .inr (.inl ⟨b, k, hloop, Nat.le_of_not_lt hk, rfl⟩)
  next c k hloop =>
    split at h
    next hk =>
      cases h
      exact .inr (.inr (.inl ⟨c, k, hloop, hk, rfl⟩))
    next hk =>
      cases h
      exact .inr (.inr (.inr ⟨c, k, hloop, Nat.le_of_not_lt hk, rfl⟩))
  next => cases h
  next => cases h

/-! ## The sinks -/

/-- The calls of a sink, as far as `run` has come. -/
def expected (accepted : List (Block ε)) (k : ℕ) : Loop ε → List (Call ε)
  | .selecting => accepted.map Call.write
  | .writing _ m => (if k < m then accepted else accepted.dropLast).map Call.write
  | .closing _ m => accepted.map Call.write ++ if k < m then [.close] else []
  | .acking _ => accepted.map Call.write ++ [.close]
  | .returned => accepted.map Call.write ++ [.close]

/-- The block being written is the last one accepted. -/
def Current (accepted : List (Block ε)) : Loop ε → Prop
  | .writing b _ => accepted.getLast? = some b
  | _ => True

/-- The sinks have been called as far as `run` has come. -/
structure Dispatched (n : ℕ) (s : State ε) : Prop where
  calls : ∀ k < n, s.callsOf k = expected s.accepted k s.loop
  current : Current s.accepted s.loop
  sinks : ∀ c ∈ s.calls, c.1 < n

theorem callsOf_append (s t : State ε) {m c} (h : t.calls = s.calls ++ [(m, c)])
    (k : ℕ) : t.callsOf k = s.callsOf k ++ if m = k then [c] else [] := by
  unfold State.callsOf
  rw [h, List.filterMap_append]
  split
  next hm => simp [hm]
  next hm => simp [hm]

theorem accepted_append {r} (h : t.returns = s.returns ++ [r]) (hr : r.accepted = none) :
    t.accepted = s.accepted := by
  unfold State.accepted
  rw [h, List.filterMap_append]
  simp [hr]

/-- No call has been made. -/
theorem Dispatched.moved (h : Dispatched n s) (hcalls : t.calls = s.calls)
    (hloop : ∀ k < n, expected t.accepted k t.loop = expected s.accepted k s.loop)
    (hcurrent : Current t.accepted t.loop) : Dispatched n t where
  calls := by
    intro k hk
    have heq : t.callsOf k = s.callsOf k := by
      unfold State.callsOf
      rw [hcalls]
    rw [heq, hloop k hk]
    exact h.calls k hk
  current := hcurrent
  sinks := by
    rw [hcalls]
    exact h.sinks

theorem Dispatched.frame (h : Dispatched n s) (hcalls : t.calls = s.calls) (hloop : t.loop = s.loop)
    (haccepted : t.accepted = s.accepted) : Dispatched n t := by
  refine h.moved hcalls (fun k _ => ?_) ?_ <;> rw [hloop, haccepted]
  exact h.current

/-- A call has been made. -/
theorem Dispatched.called (h : Dispatched n s) {m c}
    (hcalls : t.calls = s.calls ++ [(m, c)]) (hm : m < n)
    (hloop : ∀ k, expected t.accepted k t.loop = expected s.accepted k s.loop ++
      if m = k then [c] else [])
    (hcurrent : Current t.accepted t.loop) : Dispatched n t where
  calls := by
    intro k hk
    rw [callsOf_append s t hcalls, hloop, h.calls k hk]
  current := hcurrent
  sinks := by
    intro x hx
    rw [hcalls, List.mem_append, List.mem_singleton] at hx
    rcases hx with hx | rfl
    · exact h.sinks x hx
    · exact hm

theorem receive_frame (h : receive s who c = some t) :
    t.calls = s.calls ∧ t.loop = s.loop ∧ t.returns = s.returns := by
  rcases receive_eq_some h with ⟨-, -, rfl⟩ | ⟨j, -, -, rfl⟩ <;> exact ⟨rfl, rfl, rfl⟩

/-- INTERNAL: the loop writes to each sink in its turn. -/
theorem Dispatched.run (h : Dispatched n s) (hrun : Broadcaster.run n s = some t) :
    Dispatched n t := by
  rcases run_eq_some hrun with ⟨b, m, hloop, hm, rfl⟩ | ⟨b, m, hloop, hm, rfl⟩ |
    ⟨c, m, hloop, hm, rfl⟩ | ⟨c, m, hloop, hm, rfl⟩
  · have hlast : s.accepted.getLast? = some b := by
      have hcurrent := h.current
      rw [hloop] at hcurrent
      exact hcurrent
    refine h.called rfl hm (fun k => ?_) hlast
    have hall : s.accepted = s.accepted.dropLast ++ [b] := by
      obtain ⟨l, hl⟩ := List.getLast?_eq_some_iff.1 hlast
      rw [hl, List.dropLast_concat]
    rw [hloop]
    simp only [expected]
    -- the sinks before this one have the block, those after it do not
    rcases Nat.lt_trichotomy k m with hk | rfl | hk
    · rw [if_pos hk, if_pos (by omega), if_neg (by omega), List.append_nil]
      rfl
    · rw [if_neg (Nat.lt_irrefl k), if_pos (Nat.lt_succ_self k), if_pos rfl]
      exact (congrArg (List.map Call.write) hall).trans List.map_append
    · rw [if_neg (by omega), if_neg (by omega), if_neg (by omega), List.append_nil]
      rfl
  · refine h.moved rfl (fun k hk => ?_) trivial
    rw [hloop]
    simp only [expected, if_pos (show k < m by omega)]
    rfl
  · refine h.called rfl hm (fun k => ?_) trivial
    rw [hloop]
    simp only [expected, List.append_assoc]
    congr 1
    rcases Nat.lt_trichotomy k m with hk | rfl | hk
    · rw [if_pos hk, if_pos (by omega), if_neg (by omega), List.append_nil]
    · rw [if_neg (Nat.lt_irrefl k), if_pos (Nat.lt_succ_self k), if_pos rfl, List.nil_append]
    · rw [if_neg (by omega), if_neg (by omega), if_neg (by omega), List.append_nil]
  · refine h.moved rfl (fun k hk => ?_) trivial
    rw [hloop]
    simp only [expected, if_pos (show k < m by omega)]
    rfl

/-- **Every step of every goroutine keeps to what is expected of the sinks.** -/
theorem Dispatched.step (h : Dispatched n s) {m} (hstep : step n s m = some t) :
    Dispatched n t := by
  unfold Broadcaster.step at hstep
  split at hstep
  next => cases hstep
  cases m with
  | write b | close =>
    cases hstep
    exact h.frame rfl rfl rfl
  | accept i =>
    obtain ⟨hloop, b, -, rfl⟩ := accept_eq_some hstep
    have haccepted : State.accepted { s with
        writers := s.writers.eraseIdx i, loop := .writing b 0,
        returns := s.returns ++ [.write b none] } = s.accepted ++ [b] := by
      simp [State.accepted, Return.accepted]
    refine h.moved rfl (fun k hk => ?_) ?_
    · rw [haccepted, hloop]
      simp [expected]
    · rw [haccepted]
      simp [Current]
  | refuse i c =>
    obtain ⟨b, s₁, -, hreceive, rfl⟩ := refuse_eq_some hstep
    obtain ⟨hcalls, hloop, hreturns⟩ := receive_frame hreceive
    refine h.frame hcalls hloop (accepted_append (r := .write b (some errSinkClosed)) ?_ rfl)
    rw [hreturns]
  | reject i c =>
    obtain ⟨s₁, -, hreceive, rfl⟩ := reject_eq_some hstep
    obtain ⟨hcalls, hloop, hreturns⟩ := receive_frame hreceive
    refine h.frame hcalls hloop
      (accepted_append (r := .close (some "broadcaster: already closed")) ?_ rfl)
    rw [hreturns]
  | default i | send i | shut i =>
    simp only [takeDefault, send, shut, Option.ite_none_right_eq_some] at hstep
    obtain ⟨-, hstep⟩ := hstep
    try split at hstep
    all_goals
      cases hstep
      exact h.frame rfl rfl rfl
  | take c =>
    obtain ⟨s₁, hloop, hreceive, rfl⟩ := take_eq_some hstep
    obtain ⟨hcalls, -, hreturns⟩ := receive_frame hreceive
    refine h.moved hcalls (fun k hk => ?_) trivial
    rw [hloop]
    simp [expected, State.accepted, hreturns]
  | run => exact h.run hstep
  | acknowledge =>
    obtain ⟨j, hloop, -, rfl⟩ := acknowledge_eq_some hstep
    refine h.moved rfl (fun k hk => ?_) trivial
    rw [hloop, accepted_append rfl rfl]
    rfl

variable {s : State ε}

theorem dispatched_of_reach {ok : State ε → Move ε → Prop}
    (h : Reach (step n) ok newBroadcaster s) : Dispatched n s := by
  refine Reach.invariant (P := Dispatched n) ?_ (fun s m s' _ hs _ hstep => hs.step hstep) h
  exact ⟨fun _ _ => rfl, trivial, by simp [newBroadcaster]⟩

/-! ## The handshake -/

/-- The call of `Close` is on its way to `close(b.closed)`. -/
def onItsWay : Closer → Bool
  | .polling => true
  | .opening => true
  | .sending => true
  | .sent => true
  | _ => false

/-- A call of `Close` is on its way to `close(b.closed)`, and `b.closed` is not closed. -/
def underWay (s : State ε) : Bool := !s.shut && s.closers.any onItsWay

/-- Before `b.closed` is closed, no call is made while a `Close` is on its way, and no `Close` while
a `Write` is in its select. -/
def Exclusive (s : State ε) : Move ε → Prop
  | .write _ => underWay s = false
  | .close => underWay s = false ∧ (s.writers = [] ∨ s.shut = true)
  | _ => True

/-- `run` waits for blocks or writes them. -/
def Serving : Loop ε → Prop
  | .selecting => True
  | .writing _ _ => True
  | _ => False

/-- `run` has the channel of the first `Close`. -/
def Stopping : Loop ε → Prop
  | .closing c _ => c = some 0
  | .acking c => c = some 0
  | _ => False

inductive Phase (s : State ε) : Prop where
  | serving (hclosers : s.closers = []) (hshut : s.shut = false) (hloop : Serving s.loop)
  /-- The first `Close` is on its way to its send. -/
  | handing (c : Closer) (hclosers : s.closers = [c]) (hc : onItsWay c = true) (hsent : c ≠ .sent)
      (hwriters : s.writers = []) (hshut : s.shut = false) (hloop : Serving s.loop)
  | handed (hclosers : s.closers = [.sent]) (hwriters : s.writers = []) (hshut : s.shut = false)
      (hloop : Stopping s.loop)
  /-- `b.closed` is closed, and the other calls of `Close` fail. -/
  | closed (c : Closer) (rest : List Closer) (hclosers : s.closers = c :: rest)
      (hrest : ∀ x ∈ rest, x = .polling ∨ x = .failed) (hshut : s.shut = true)
      (hc : c = .awaiting ∧ Stopping s.loop ∨ c = .returned ∧ s.loop = .returned)

structure Orderly (s : State ε) : Prop where
  phase : Phase s
  calm : s.panicked = false
  received : ∀ r ∈ s.received, r.2 = .run

theorem Phase.congr (h : Phase s) (hclosers : t.closers = s.closers) (hshut : t.shut = s.shut)
    (hloop : t.loop = s.loop) (hwriters : s.writers = [] → t.writers = []) : Phase t := by
  cases h with
  | serving h₁ h₂ h₃ => exact .serving (hclosers.trans h₁) (hshut.trans h₂) (hloop ▸ h₃)
  | handing c h₁ h₂ h₃ h₄ h₅ h₆ =>
    exact .handing c (hclosers.trans h₁) h₂ h₃ (hwriters h₄) (hshut.trans h₅) (hloop ▸ h₆)
  | handed h₁ h₂ h₃ h₄ =>
    exact .handed (hclosers.trans h₁) (hwriters h₂) (hshut.trans h₃) (hloop ▸ h₄)
  | closed c rest h₁ h₂ h₃ h₄ =>
    exact .closed c rest (hclosers.trans h₁) h₂ (hshut.trans h₃) (hloop ▸ h₄)

theorem eq_of_singleton {c x : Closer} (h : [c][i]? = some x) : i = 0 ∧ c = x := by
  cases i with
  | zero => exact ⟨rfl, Option.some.inj h⟩
  | succ i => cases h

theorem of_closed {c x : Closer} {rest : List Closer}
    (hrest : ∀ x ∈ rest, x = .polling ∨ x = .failed) (h : (c :: rest)[i]? = some x) :
    i = 0 ∧ x = c ∨ ∃ k, i = k + 1 ∧ rest[k]? = some x ∧ (x = .polling ∨ x = .failed) := by
  cases i with
  | zero => exact .inl ⟨rfl, (Option.some.inj h).symm⟩
  | succ k => exact .inr ⟨k, rfl, h, hrest x (List.mem_of_getElem? h)⟩

theorem Phase.of_shut (h : Phase s) (hshut : s.shut = true) :
    ∃ c rest, s.closers = c :: rest ∧ (∀ x ∈ rest, x = .polling ∨ x = .failed) ∧
      (c = .awaiting ∧ Stopping s.loop ∨ c = .returned ∧ s.loop = .returned) := by
  cases h with
  | serving _ hopen _ | handing _ _ _ _ _ hopen _ | handed _ _ hopen _ =>
    cases hshut.symm.trans hopen
  | closed c rest hclosers hrest _ hc => exact ⟨c, rest, hclosers, hrest, hc⟩

/-- The closer that is past its poll is the first. -/
theorem Phase.of_handing (h : Phase s) {c : Closer} (hi : s.closers[i]? = some c)
    (hc : onItsWay c = true) (hpast : c ≠ .polling) :
    i = 0 ∧ s.closers = [c] ∧ s.writers = [] ∧ s.shut = false ∧
      (c ≠ .sent → Serving s.loop) ∧ (c = .sent → Stopping s.loop) := by
  cases h with
  | serving hclosers _ _ => simp [hclosers] at hi
  | handing x hclosers _ hsent hwriters hshut hloop =>
    rw [hclosers] at hi
    obtain ⟨rfl, rfl⟩ := eq_of_singleton hi
    exact ⟨rfl, hclosers, hwriters, hshut, fun _ => hloop, fun heq => (hsent heq).elim⟩
  | handed hclosers hwriters hshut hloop =>
    rw [hclosers] at hi
    obtain ⟨rfl, rfl⟩ := eq_of_singleton hi
    exact ⟨rfl, hclosers, hwriters, hshut, fun hne => (hne rfl).elim, fun _ => hloop⟩
  | closed x rest hclosers hrest _ hx =>
    rw [hclosers] at hi
    rcases of_closed hrest hi with ⟨-, rfl⟩ | ⟨k, -, -, hc'⟩
    · rcases hx with ⟨rfl, -⟩ | ⟨rfl, -⟩ <;> cases hc
    · rcases hc' with rfl | rfl
      · exact (hpast rfl).elim
      · cases hc

theorem Phase.of_sending (h : Phase s) {j : ℕ} (hj : s.closers[j]? = some .sending) :
    j = 0 ∧ s.closers = [.sending] ∧ s.writers = [] ∧ s.shut = false := by
  obtain ⟨hzero, hclosers, hwriters, hshut, -⟩ := h.of_handing hj rfl (by simp)
  exact ⟨hzero, hclosers, hwriters, hshut⟩

theorem Phase.receive (h : Phase s) (hreceive : receive s who c = some t) :
    (s.shut = true ∧ t = s) ∨ s.closers = [.sending] ∧ s.writers = [] := by
  rcases receive_eq_some hreceive with ⟨-, hshut, rfl⟩ | ⟨j, -, hj, -⟩
  · exact .inl ⟨hshut, rfl⟩
  · obtain ⟨-, hclosers, hwriters, -⟩ := h.of_sending hj
    exact .inr ⟨hclosers, hwriters⟩

/-- While the loop selects, nothing is closed. -/
theorem Phase.selecting (h : Phase s) (hloop : s.loop = .selecting) {b}
    (hi : s.writers[i]? = some b) : s.closers = [] ∧ s.shut = false := by
  have hwriter : s.writers ≠ [] := by
    intro hnil
    simp [hnil] at hi
  cases h with
  | serving hclosers hshut _ => exact ⟨hclosers, hshut⟩
  | handing _ _ _ _ hwriters _ _ | handed _ hwriters _ _ => exact (hwriter hwriters).elim
  | closed _ _ _ _ _ hc =>
    rw [hloop] at hc
    rcases hc with ⟨-, hstop⟩ | ⟨-, hret⟩
    · exact hstop.elim
    · cases hret

/-- The loop serves until it stops. -/
theorem run_kind (h : Broadcaster.run n s = some t) :
    t.closers = s.closers ∧ t.shut = s.shut ∧ t.writers = s.writers ∧ t.panicked = s.panicked ∧
      t.received = s.received ∧ (Serving s.loop → Serving t.loop) ∧
        (Stopping s.loop → Stopping t.loop) ∧ s.loop ≠ .returned := by
  rcases run_eq_some h with ⟨b, m, hloop, -, rfl⟩ | ⟨b, m, hloop, -, rfl⟩ |
    ⟨c, m, hloop, -, rfl⟩ | ⟨c, m, hloop, -, rfl⟩
  · exact ⟨rfl, rfl, rfl, rfl, rfl, fun _ => trivial, by simp [hloop, Stopping], by simp [hloop]⟩
  · exact ⟨rfl, rfl, rfl, rfl, rfl, fun _ => trivial, by simp [hloop, Stopping], by simp [hloop]⟩
  · refine ⟨rfl, rfl, rfl, rfl, rfl, by simp [hloop, Serving], ?_, by simp [hloop]⟩
    rw [hloop]
    exact id
  · refine ⟨rfl, rfl, rfl, rfl, rfl, by simp [hloop, Serving], ?_, by simp [hloop]⟩
    rw [hloop]
    exact id

/-- The closer that awaits has shut the broadcaster. -/
theorem Phase.of_awaiting (h : Phase s) {j : ℕ} (hj : s.closers[j]? = some .awaiting) :
    j = 0 ∧ s.shut = true ∧ Stopping s.loop ∧
      ∃ rest, s.closers = .awaiting :: rest ∧ ∀ x ∈ rest, x = .polling ∨ x = .failed := by
  cases h with
  | serving h₁ _ _ => simp [h₁] at hj
  | handing c h₁ h₂ _ _ _ _ =>
    rw [h₁] at hj
    rw [(eq_of_singleton hj).2] at h₂
    cases h₂
  | handed h₁ _ _ _ =>
    rw [h₁] at hj
    cases (eq_of_singleton hj).2
  | closed c rest h₁ h₂ h₃ h₄ =>
    rw [h₁] at hj
    rcases of_closed h₂ hj with ⟨rfl, rfl⟩ | ⟨k, -, -, hx⟩
    · rcases h₄ with ⟨-, hstop⟩ | ⟨hret, -⟩
      · exact ⟨rfl, h₃, hstop, rest, h₁, h₂⟩
      · cases hret
    · rcases hx with hx | hx <;> cases hx

/-- **An admitted step keeps the handshake in order.** -/
theorem Orderly.step (h : Orderly s) {m : Move ε} (hok : Exclusive s m)
    (hstep : step n s m = some t) : Orderly t := by
  unfold Broadcaster.step at hstep
  rw [if_neg (by simp [h.calm])] at hstep
  cases m with
  | write b =>
    cases hstep
    refine ⟨?_, h.calm, h.received⟩
    cases h.phase with
    | serving h₁ h₂ h₃ => exact .serving h₁ h₂ h₃
    | handing c h₁ h₂ _ _ h₅ _ => simp [Exclusive, underWay, h₁, h₂, h₅] at hok
    | handed h₁ _ h₃ _ => simp [Exclusive, underWay, h₁, h₃, onItsWay] at hok
    | closed c rest h₁ h₂ h₃ h₄ => exact .closed c rest h₁ h₂ h₃ h₄
  | accept i =>
    obtain ⟨hloop, b, hwriter, rfl⟩ := accept_eq_some hstep
    obtain ⟨hclosers, hshut⟩ := h.phase.selecting hloop hwriter
    exact ⟨.serving hclosers hshut trivial, h.calm, h.received⟩
  | refuse i c =>
    obtain ⟨b, s₁, hwriter, hreceive, rfl⟩ := refuse_eq_some hstep
    rcases h.phase.receive hreceive with ⟨-, rfl⟩ | ⟨-, hwriters⟩
    · refine ⟨h.phase.congr rfl rfl rfl fun hnil => ?_, h.calm, h.received⟩
      simp [hnil]
    · simp [hwriters] at hwriter
  | close =>
    cases hstep
    refine ⟨?_, h.calm, h.received⟩
    cases h.phase with
    | serving h₁ h₂ h₃ =>
      have hwriters : s.writers = [] := hok.2.resolve_right (by simp [h₂])
      exact .handing .polling (by simp [h₁]) rfl (by simp) hwriters h₂ h₃
    | handing c h₁ h₂ _ _ h₅ _ => simp [Exclusive, underWay, h₁, h₂, h₅] at hok
    | handed h₁ _ h₃ _ => simp [Exclusive, underWay, h₁, h₃, onItsWay] at hok
    | closed c rest h₁ h₂ h₃ h₄ =>
      refine .closed c (rest ++ [.polling]) (by simp [h₁]) (fun x hx => ?_) h₃ h₄
      rcases List.mem_append.1 hx with hx | hx
      · exact h₂ x hx
      · exact .inl (List.mem_singleton.1 hx)
  | reject i c =>
    obtain ⟨s₁, hcloser, hreceive, rfl⟩ := reject_eq_some hstep
    rcases h.phase.receive hreceive with ⟨hshut, rfl⟩ | ⟨hclosers, -⟩
    · obtain ⟨x, rest, hclosers, hrest, hx⟩ := h.phase.of_shut hshut
      refine ⟨?_, h.calm, h.received⟩
      rw [hclosers] at hcloser
      rcases of_closed hrest hcloser with ⟨-, rfl⟩ | ⟨k, rfl, -, -⟩
      · rcases hx with ⟨hx, -⟩ | ⟨hx, -⟩ <;> cases hx
      · refine .closed x (rest.set k .failed) (by simp [hclosers]) (fun y hy => ?_) hshut hx
        rcases List.mem_or_eq_of_mem_set hy with hy | rfl
        · exact hrest y hy
        · exact .inr rfl
    · rw [hclosers] at hcloser
      cases (eq_of_singleton hcloser).2
  | default i =>
    obtain ⟨⟨hcloser, hshut, -⟩, ⟨⟩⟩ := Option.ite_none_right_eq_some.1 hstep
    refine ⟨?_, h.calm, h.received⟩
    cases h.phase with
    | serving h₁ _ _ => simp [h₁] at hcloser
    | handing c h₁ _ _ h₄ h₅ h₆ =>
      rw [h₁] at hcloser
      obtain ⟨rfl, rfl⟩ := eq_of_singleton hcloser
      exact .handing .opening (by simp [h₁]) rfl (by simp) h₄ h₅ h₆
    | handed h₁ _ _ _ =>
      rw [h₁] at hcloser
      cases (eq_of_singleton hcloser).2
    | closed _ _ _ _ h₃ _ => cases hshut.symm.trans h₃
  | send i =>
    simp only [send, Option.ite_none_right_eq_some] at hstep
    obtain ⟨hcloser, hstep⟩ := hstep
    obtain ⟨rfl, hclosers, hwriters, hshut, hserving, -⟩ := h.phase.of_handing hcloser rfl (by simp)
    rw [if_neg (by simp [hshut])] at hstep
    cases hstep
    refine ⟨?_, h.calm, h.received⟩
    exact .handing .sending (by simp [hclosers]) rfl (by simp) hwriters hshut (hserving (by simp))
  | shut i =>
    simp only [shut, Option.ite_none_right_eq_some] at hstep
    obtain ⟨hcloser, hstep⟩ := hstep
    obtain ⟨rfl, hclosers, hwriters, hshut, -, hstopping⟩ :=
      h.phase.of_handing hcloser rfl (by simp)
    rw [if_neg (by simp [hshut, hclosers])] at hstep
    cases hstep
    refine ⟨?_, h.calm, h.received⟩
    exact .closed .awaiting [] (by simp [hclosers]) (by simp) rfl (.inl ⟨rfl, hstopping rfl⟩)
  | take c =>
    obtain ⟨s₁, hloop, hreceive, rfl⟩ := take_eq_some hstep
    rcases receive_eq_some hreceive with ⟨-, hshut, rfl⟩ | ⟨j, rfl, hj, rfl⟩
    · -- `run` does not come back to its select once `b.closed` is closed
      obtain ⟨x, rest, -, -, hx⟩ := h.phase.of_shut hshut
      rw [hloop] at hx
      rcases hx with ⟨-, hstop⟩ | ⟨-, hret⟩
      · exact hstop.elim
      · cases hret
    · obtain ⟨rfl, hclosers, hwriters, hshut⟩ := h.phase.of_sending hj
      refine ⟨.handed (by simp [hclosers]) hwriters hshut rfl, h.calm, fun r hr => ?_⟩
      rcases List.mem_append.1 hr with hr | hr
      · exact h.received r hr
      · rw [List.mem_singleton.1 hr]
  | run =>
    obtain ⟨hclosers, hshut, hwriters, hcalm, hreceived, hserving, hstopping, hreturned⟩ :=
      run_kind hstep
    refine ⟨?_, hcalm.trans h.calm, hreceived ▸ h.received⟩
    cases h.phase with
    | serving h₁ h₂ h₃ => exact .serving (hclosers.trans h₁) (hshut.trans h₂) (hserving h₃)
    | handing c h₁ h₂ h₃ h₄ h₅ h₆ =>
      exact .handing c (hclosers.trans h₁) h₂ h₃ (hwriters.trans h₄) (hshut.trans h₅) (hserving h₆)
    | handed h₁ h₂ h₃ h₄ =>
      exact .handed (hclosers.trans h₁) (hwriters.trans h₂) (hshut.trans h₃) (hstopping h₄)
    | closed c rest h₁ h₂ h₃ h₄ =>
      refine .closed c rest (hclosers.trans h₁) h₂ (hshut.trans h₃) (.inl ?_)
      rcases h₄ with ⟨hc, hstop⟩ | ⟨-, hret⟩
      · exact ⟨hc, hstopping hstop⟩
      · exact (hreturned hret).elim
  | acknowledge =>
    obtain ⟨j, -, hcloser, rfl⟩ := acknowledge_eq_some hstep
    obtain ⟨rfl, hshut, -, rest, hclosers, hrest⟩ := h.phase.of_awaiting hcloser
    refine ⟨?_, h.calm, h.received⟩
    exact .closed .returned rest (by simp [hclosers]) hrest hshut (.inr ⟨rfl, rfl⟩)

theorem orderly_of_reach (h : Reach (step n) Exclusive newBroadcaster s) : Orderly s := by
  refine Reach.invariant (P := Orderly) ?_ (fun s m s' _ hs hok hstep => hs.step hok hstep) h
  exact ⟨.serving rfl rfl trivial, rfl, by simp [newBroadcaster]⟩

/-! ## What `run` gets done on its own -/

theorem run_eq_none (h : Broadcaster.run n s = none) :
    s.loop = .selecting ∨ (∃ c, s.loop = .acking c) ∨ s.loop = .returned := by
  unfold Broadcaster.run at h
  split at h
  next hloop => exact .inl hloop
  next => split at h <;> cases h
  next => split at h <;> cases h
  next c hloop => exact .inr (.inl ⟨c, hloop⟩)
  next hloop => exact .inr (.inr hloop)

/-- The calls of sinks `run` has ahead of it, and one step more. -/
def ahead (n : ℕ) (s : State ε) : ℕ :=
  match s.loop with
  | .writing _ k => n - k + 1
  | .closing _ k => n - k + 1
  | _ => 0

theorem ahead_lt (h : Broadcaster.run n s = some t) : ahead n t < ahead n s := by
  rcases run_eq_some h with ⟨b, m, hloop, hm, rfl⟩ | ⟨b, m, hloop, hm, rfl⟩ |
    ⟨c, m, hloop, hm, rfl⟩ | ⟨c, m, hloop, hm, rfl⟩ <;> simp only [ahead, hloop] <;> omega

theorem accepted_of_run (h : Broadcaster.run n s = some t) : t.accepted = s.accepted := by
  rcases run_eq_some h with ⟨_, _, -, -, rfl⟩ | ⟨_, _, -, -, rfl⟩ | ⟨_, _, -, -, rfl⟩ |
    ⟨_, _, -, -, rfl⟩ <;> rfl

/-- **Left alone, `run` comes to its next meeting with another goroutine.** -/
theorem run_comes_to_rest (hcalm : s.panicked = false) (h : Dispatched n s) :
    ∃ i t, Library.run (Broadcaster.step n) s (List.replicate i .run) = some t ∧
      (t.panicked = false ∧ Dispatched n t ∧ t.accepted = s.accepted ∧ t.closers = s.closers ∧
        (Stopping s.loop → Stopping t.loop)) ∧ Broadcaster.run n t = none := by
  refine exists_run_replicate (μ := ahead n)
    (P := fun t => t.panicked = false ∧ Dispatched n t ∧ t.accepted = s.accepted ∧
      t.closers = s.closers ∧ (Stopping s.loop → Stopping t.loop))
    (Q := fun t => Broadcaster.run n t = none) ?_ ⟨hcalm, h, rfl, rfl, id⟩
  rintro t ⟨hcalm, hsinks, haccepted, hclosers, hstopping⟩
  cases hrun : Broadcaster.run n t with
  | none => exact .inl rfl
  | some t' =>
    obtain ⟨hclosers', -, -, hcalm', -, -, hstopping', -⟩ := run_kind hrun
    refine .inr ⟨t', ?_, ⟨hcalm'.trans hcalm, hsinks.run hrun, ?_, ?_, ?_⟩, ahead_lt hrun⟩
    · rw [Broadcaster.step, if_neg (by simp [hcalm])]
      exact hrun
    · rw [accepted_of_run hrun, haccepted]
    · rw [hclosers', hclosers]
    · exact fun hs => hstopping' (hstopping hs)

/-! ## The protocol -/

theorem written_of_callsOf {k l tail}
    (h : s.callsOf k = l.map Call.write ++ tail) (htail : tail.filterMap Call.block = []) :
    s.written k = l := by
  have hmap : (l.map Call.write).filterMap Call.block = l := by
    rw [List.filterMap_map]
    exact List.filterMap_some
  rw [State.written, h, List.filterMap_append, hmap, htail, List.append_nil]

structure Protocol (n : ℕ) (s : State ε) : Prop where
  /-- Only `run` receives the channel of a `Close`. -/
  handover : ∀ r ∈ s.received, r.2 = .run
  /-- A sink gets the blocks in the order in which they were accepted, and each one once. -/
  in_order : ∀ k < n, s.written k <+: s.accepted
  /-- `run` gets all of them done. -/
  dispatched : ∃ i t, Library.run (step n) s (List.replicate i .run) = some t ∧
    t.accepted = s.accepted ∧ ∀ k < n, t.written k = s.accepted
  /-- No sink is closed before all sinks have all blocks, and a sink is closed once. -/
  before_close : ∀ j, (j, Call.close) ∈ s.calls → ∀ k < n,
    s.callsOf k = s.accepted.map Call.write ∨ s.callsOf k = s.accepted.map Call.write ++ [.close]
  /-- A `Close` that waits for its acknowledgement gets it from `run`. -/
  acknowledged : ∀ j : ℕ, s.closers[j]? = some Closer.awaiting → ∃ i t,
    Library.run (step n) s (List.replicate i .run ++ [.acknowledge]) = some t ∧
      t.closers[j]? = some Closer.returned
  calm : s.panicked = false
  /-- All calls of `Close` but the first one fail. -/
  repeated : ∀ (j : ℕ) (c : Closer), 0 < j → s.closers[j]? = some c → c = .failed ∨ c = .polling ∧
    step n s (.default j) = none ∧
      ∃ t, step n s (.reject j none) = some t ∧ t.closers[j]? = some .failed

/-- **Each sink gets the events in order.** -/
theorem Dispatched.in_order (h : Dispatched n s) {k} (hk : k < n) : s.written k <+: s.accepted := by
  have hcalls := h.calls k hk
  cases hloop : s.loop with
  | selecting =>
    rw [hloop, expected] at hcalls
    exact written_of_callsOf (hcalls.trans (List.append_nil _).symm) rfl ▸ List.prefix_rfl
  | writing b m =>
    rw [hloop, expected] at hcalls
    rw [written_of_callsOf (hcalls.trans (List.append_nil _).symm) rfl]
    split
    next => exact List.prefix_rfl
    next => exact List.dropLast_prefix _
  | closing c m =>
    rw [hloop, expected] at hcalls
    have hblocks :
        (if k < m then [Call.close] else [] : List (Call ε)).filterMap Call.block = [] := by
      split <;> rfl
    exact written_of_callsOf hcalls hblocks ▸ List.prefix_rfl
  | acking c | returned =>
    rw [hloop, expected] at hcalls
    exact written_of_callsOf hcalls rfl ▸ List.prefix_rfl

theorem Dispatched.written_eq (h : Dispatched n s) (hrun : Broadcaster.run n s = none) {k}
    (hk : k < n) : s.written k = s.accepted := by
  have hcalls := h.calls k hk
  rcases run_eq_none hrun with hloop | ⟨c, hloop⟩ | hloop <;> rw [hloop, expected] at hcalls
  · exact written_of_callsOf (hcalls.trans (List.append_nil _).symm) rfl
  · exact written_of_callsOf hcalls rfl
  · exact written_of_callsOf hcalls rfl

/-- **No sink is closed before it has all events.** -/
theorem Dispatched.before_close (h : Dispatched n s) {j} (hclose : (j, Call.close) ∈ s.calls)
    {k} (hk : k < n) :
    s.callsOf k = s.accepted.map Call.write ∨
      s.callsOf k = s.accepted.map Call.write ++ [.close] := by
  have hmem : Call.close ∈ s.callsOf j := List.mem_filterMap.2 ⟨(j, .close), hclose, if_pos rfl⟩
  rw [h.calls j (h.sinks _ hclose)] at hmem
  have hcalls := h.calls k hk
  cases hloop : s.loop with
  | selecting | writing b m => simp [hloop, expected] at hmem
  | closing c m =>
    rw [hloop, expected] at hcalls
    split at hcalls
    next => exact .inr hcalls
    next => exact .inl (hcalls.trans (List.append_nil _))
  | acking c | returned =>
    rw [hloop, expected] at hcalls
    exact .inr hcalls

/-- Later closers poll or fail. -/
theorem Phase.of_repeated (h : Phase s) {j : ℕ} {c : Closer} (hpos : 0 < j)
    (hj : s.closers[j]? = some c) : s.shut = true ∧ (c = .polling ∨ c = .failed) := by
  cases h with
  | serving h₁ _ _ => simp [h₁] at hj
  | handing c h₁ _ _ _ _ _ | handed h₁ _ _ _ =>
    rw [h₁] at hj
    exact absurd (eq_of_singleton hj).1 (Nat.ne_of_gt hpos)
  | closed x rest h₁ h₂ h₃ _ =>
    rw [h₁] at hj
    rcases of_closed h₂ hj with ⟨rfl, -⟩ | ⟨k, -, -, hx⟩
    · exact absurd hpos (Nat.lt_irrefl 0)
    · exact ⟨h₃, hx⟩

/-- **The broadcaster keeps its protocol** in every run in which no other call could take the
channel that `Close` hands over. -/
theorem broadcaster_protocol {s : State ε} (h : Reach (step n) Exclusive newBroadcaster s) :
    Protocol n s := by
  have horderly := orderly_of_reach h
  have hsinks := dispatched_of_reach h
  obtain ⟨i, t, hrun, ⟨hcalm, hdone, haccepted, hclosers, hstopping⟩, hrest⟩ :=
    run_comes_to_rest horderly.calm hsinks
  constructor
  case handover => exact horderly.received
  case in_order => exact fun k hk => hsinks.in_order hk
  case dispatched =>
    refine ⟨i, t, hrun, haccepted, fun k hk => ?_⟩
    rw [hdone.written_eq hrest hk, haccepted]
  case before_close => exact fun j hclose k hk => hsinks.before_close hclose hk
  case acknowledged =>
    intro j hj
    obtain ⟨rfl, -, hstop, -⟩ := horderly.phase.of_awaiting hj
    have hstop' := hstopping hstop
    have hacking : t.loop = .acking (some 0) := by
      rcases run_eq_none hrest with hloop | ⟨c, hloop⟩ | hloop <;> rw [hloop] at hstop' ⊢
      · exact hstop'.elim
      · exact congrArg Loop.acking hstop'
      · exact hstop'.elim
    have hawaiting : t.closers[0]? = some .awaiting := hclosers ▸ hj
    refine ⟨i, { t with closers := t.closers.set 0 .returned, loop := .returned,
                        returns := t.returns ++ [.close none] }, ?_, ?_⟩
    · rw [Library.run_append hrun]
      simp [Library.run, step, acknowledge, hcalm, hacking, hawaiting]
    · obtain ⟨hlt, -⟩ := List.getElem?_eq_some_iff.1 hawaiting
      exact List.getElem?_set_self hlt
  case calm => exact horderly.calm
  case repeated =>
    intro j c hpos hj
    obtain ⟨hshut, rfl | rfl⟩ := horderly.phase.of_repeated hpos hj
    · refine .inr ⟨rfl, ?_, { s with
        closers := s.closers.set j .failed,
        returns := s.returns ++ [.close (some "broadcaster: already closed")] }, ?_, ?_⟩
      · simp [step, takeDefault, horderly.calm, hshut]
      · simp [step, reject, receive, horderly.calm, hshut, hj]
      · obtain ⟨hlt, -⟩ := List.getElem?_eq_some_iff.1 hj
        exact List.getElem?_set_self hlt
    · exact .inl rfl

instance [DecidableEq ε] (s : State ε) (m : Move ε) : Decidable (Exclusive s m) := by
  cases m <;> dsimp only [Exclusive] <;> infer_instance

/-- Two concurrent calls of `Write`, a `Close`, and another `Close` and `Write` before the
acknowledgement. -/
theorem broadcaster_protocol_two : ∃ s : State ℕ,
    Reach (step 2) Exclusive newBroadcaster s ∧ s.closers = [.awaiting, .failed] ∧
      s.returns = [.write (some [1]) none, .write (some [2]) none,
        .close (some "broadcaster: already closed"), .write (some [3]) (some errSinkClosed)] ∧
        Protocol 2 s := by
  obtain ⟨s, hreach, hclosers, hreturns⟩ : ∃ s : State ℕ,
      Reach (step 2) Exclusive newBroadcaster s ∧ s.closers = [.awaiting, .failed] ∧
        s.returns = [.write (some [1]) none, .write (some [2]) none,
          .close (some "broadcaster: already closed"), .write (some [3]) (some errSinkClosed)] :=
    exists_reach [.write (some [2]), .write (some [1]), .accept 1, .run, .run, .run, .accept 0,
      .close, .default 0, .send 0, .run, .run, .run, .take (some 0), .shut 0, .close,
      .write (some [3]), .reject 1 none, .refuse 0 none] (by decide +kernel)
  exact ⟨s, hreach, hclosers, hreturns, broadcaster_protocol hreach⟩

/-- A `Write` receives the channel of a `Close`, which then waits for ever. And a `Close` panics
when another one closes `b.closed`. -/
theorem handshake_fails :
    (∃ s : State ℕ, Reach (step 1) (fun _ _ => True) newBroadcaster s ∧
      s.received = [(0, .write)] ∧ s.closers = [.awaiting] ∧ s.loop = .acking none ∧
        step 1 s .run = none ∧ step 1 s .acknowledge = none) ∧
    ∃ s : State ℕ, Reach (step 1) (fun _ _ => True) newBroadcaster s ∧ s.panicked = true := by
  constructor
  · exact exists_reach [.write (some [1]), .close, .default 0, .send 0, .refuse 0 (some 0), .shut 0,
      .take none, .run, .run] (by decide +kernel)
  · exact exists_reach [.close, .close, .default 0, .default 1, .send 0, .send 1, .take (some 0),
      .shut 0] (by decide +kernel)

end ContainerRegistry.Analysis.Broadcasts
