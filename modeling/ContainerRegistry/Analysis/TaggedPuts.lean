import ContainerRegistry.Library.Runs
import ContainerRegistry.Model.TagPuts

/-!
# When a manifest put by tag survives its manifest

The handler sees in three places that a worker has deleted the manifest, and starts over in one of
them: where the insert of the tag violates the foreign key. If the manifest is deleted at most once,
and not between the two lookups of the handler, every program point finds what it needs (`Placed`),
and each step brings the request closer to its end (`remaining`).
-/

namespace ContainerRegistry.Analysis.TagPuts

open Library (Reach exists_reach)
open Model.TagPuts List Function
open Model (Digest TagName lockTimeout reviewWindow)

/-! ## The runs -/

def isDone : Point → Bool
  | .done _ => true
  | _ => false

/-- A worker deletes the manifest once at most and before the request has ended, and no lock timeout
expires. -/
def Fair (s : State) : Action → Prop
  | .tick d => s.request.deadline.all (s.clock + d < ·)
  | .expire => False
  | .work w => (s.workers w).isDeleted → s.deletions = 0 ∧ isDone s.request = false
  | _ => True

def between : Point → Bool
  | .layers _ _ | .tagFind => true
  | _ => false

/-- The manifest is not deleted between the two lookups. -/
def Clear (s : State) : Action → Prop
  | .work w => (s.workers w).isDeleted → between s.request = false
  | _ => True

instance (s : State) (a : Action) : Decidable (Fair s a) := by
  cases a <;> dsimp only [Fair] <;> infer_instance

instance (s : State) (a : Action) : Decidable (Clear s a) := by
  cases a <;> dsimp only [Clear] <;> infer_instance

def Tagged (p : Put) (s : State) : Prop := ∃ r, s.row = some r ∧ (p.tag, r.id) ∈ s.tags

/-! ## Workers -/

section Workers

variable {c : Setup} {p : Put} {s s' : State} {w w' : ℕ}

theorem present_iff {id} : s.present id = true ↔ ∃ r, s.row = some r ∧ r.id = id := by
  unfold State.present
  cases s.row <;> simp

theorem present_unique {id id'} (h : s.present id = true) (h' : s.present id' = true) :
    id = id' := by
  obtain ⟨r, hr, rfl⟩ := present_iff.1 h
  obtain ⟨r', hr', rfl⟩ := present_iff.1 h'
  rw [hr, Option.some.injEq] at hr'
  rw [hr']

/-- A worker that has a task has locked its review, and the manifest is there; one with a lock has a
task. -/
structure Busy (s : State) : Prop where
  task : ∀ w id, (s.workers w).task = some id → s.present id = true ∧ s.reviewer = some w
  held : ∀ w, s.reviewer = some w → s.workers w ≠ .idle

theorem task_eq_none {st : Stage} : st.task = none ↔ st = .idle := by
  cases st <;> simp [Stage.task]

theorem Busy.alone (h : Busy s) {id : ℕ} (hw : (s.workers w).task = some id) (hne : w' ≠ w) :
    s.workers w' = .idle := by
  rw [← task_eq_none, Option.eq_none_iff_forall_ne_some]
  intro id' hw'
  have hw := (h.task _ _ hw).2
  rw [(h.task _ _ hw').2, Option.some.injEq] at hw
  exact hne hw

theorem Busy.idle (h : Busy s) (hnone : s.reviewer = none) (w : ℕ) : s.workers w = .idle := by
  rw [← task_eq_none, Option.eq_none_iff_forall_ne_some]
  intro id hw
  have := (h.task _ _ hw).2
  rw [hnone] at this
  cases this

theorem Busy.of_idle (h : ∀ w, s.workers w = .idle) (hnone : s.reviewer = none) : Busy s where
  task w id hw := by
    rw [h w] at hw
    cases hw
  held w hw := by
    rw [hnone] at hw
    cases hw

theorem reviewer_eq_some :
    s.reviewer = some w ↔ ∃ v, s.review = some v ∧ v.holder = some (.worker w) := by
  unfold State.reviewer
  cases s.review with
  | none => simp
  | some v =>
    rcases hv : v.holder with _ | _ | w' <;> simp [hv]

theorem unlock_reviewer : s.unlock.reviewer = s.reviewer := by
  unfold State.unlock State.reviewer
  cases hv : s.review with
  | none => rfl
  | some v =>
    simp only [Option.map_some, Option.bind_some, Review.release]
    split
    · rename_i heq
      rw [heq]
      rfl
    · rfl

@[simp] theorem move_workers (st : Stage) : (s.move w st).workers = update s.workers w st := rfl

/-- A worker goes on with its task. -/
theorem Busy.move (h : Busy s) {id : ℕ} {st : Stage} (hw : (s.workers w).task = some id)
    (hst : st.task = some id) : Busy (s.move w st) where
  task w' id' hw' := by
    by_cases heq : w' = w
    · subst heq
      simp only [move_workers, update_self, hst, Option.some.injEq] at hw'
      subst hw'
      exact h.task _ _ hw
    · simp only [move_workers, update_of_ne heq] at hw'
      exact h.task _ _ hw'
  held w' hw' := by
    have hheld : s.reviewer = some w' := hw'
    rw [(h.task _ _ hw).2, Option.some.injEq] at hheld
    rw [← hheld, move_workers, update_self, Ne, ← task_eq_none, hst]
    nofun

theorem Busy.stop (h : Busy s) {id} (hw : (s.workers w).task = some id) (w' : ℕ) :
    (s.move w .idle).workers w' = .idle := by
  by_cases heq : w' = w
  · rw [heq]
    exact update_self ..
  · rw [move_workers, update_of_ne heq]
    exact h.alone hw heq

def layerCount (p : Put) : ℕ :=
  match p.content with
  | .image _ layers => layers.length
  | .list _ => 0

/-- How many steps of its own the request is from its end, at most, if it does not start over. -/
def ahead (p : Put) : Point → ℕ
  | .validate => layerCount p + 10
  | .config => layerCount p + 9
  | .find => layerCount p + 8
  | .create => layerCount p + 7
  | .layers _ todo => todo.length + 6
  | .tagFind => 5
  | .select _ _ _ => 4
  | .lock _ _ _ => 3
  | .insert _ _ => 2
  | .commit _ => 1
  | .done _ => 0

/-- **What a statement of the request can do.** -/
inductive Puts (p : Put) (s : State) : State → Prop where
  | goto (q : Point) (hq : ahead p q < ahead p s.request) : Puts p s (s.goto q)
  | create (after : ℕ) (q : Point) (hrow : s.row = none) (hq : ahead p q < ahead p s.request) :
      Puts p s { s with
        serial := s.serial + 1, row := some ⟨s.serial, []⟩, review := some ⟨after, none⟩,
        request := q }
  | layer (l : Digest) (q : Point) (hq : ahead p q < ahead p s.request) :
      Puts p s { s with
        row := s.row.map fun r => { r with layers := r.layers ++ [l] }, request := q }
  | lock (q : Point) (hfree : s.reviewer = none) (hq : ahead p q < ahead p s.request) :
      Puts p s { s with
        review := s.review.map fun v => { v with holder := some .request }, request := q }
  | startOver (id deadline : ℕ) (hp : s.request = .insert id deadline) : Puts p s s.unlock.startOver
  | commit (tags : List (TagName × ℕ)) (q : Point) (hq : ahead p q < ahead p s.request) :
      Puts p s { s with tags := tags, review := s.unlock.review, request := q }

/-- There are no other steps of a put. -/
theorem puts_of_put (h : put c p s = some s') : Puts p s s' := by
  unfold put at h
  split at h <;> rename_i hp
  case h_1 | h_3 =>
    cases h
    refine .goto _ ?_
    split <;> simp [hp, ahead]
  case h_2 =>
    split at h <;> cases h <;> refine .goto _ ?_
    · split <;> simp [hp, ahead]
    · simp [hp, ahead]
  case h_4 =>
    split at h <;> cases h
    · exact .goto _ (by simp [hp, ahead])
    · rename_i hrow
      refine .create _ _ (by simpa using (not_or.1 hrow).1) ?_
      cases hc : p.content <;> simp [hp, ahead, layerCount, hc]
  case h_5 =>
    cases h
    exact .goto _ (by simp [hp, ahead])
  case h_6 =>
    split at h
    · cases h
      exact .goto _ (by simp [hp, ahead])
    obtain ⟨-, h⟩ := Option.ite_none_left_eq_some.1 h
    split at h <;> cases h
    · exact .layer _ _ (by simp [hp, ahead])
    · exact .goto _ (by simp [hp, ahead])
  case h_7 => split at h <;> cases h <;> exact .goto _ (by simp [hp, ahead])
  case h_8 =>
    obtain ⟨-, h⟩ := Option.ite_none_left_eq_some.1 h
    split at h <;> cases h <;> exact .goto _ (by simp [hp, ahead])
  case h_9 =>
    simp only [Option.ite_none_left_eq_some] at h
    obtain ⟨-, hfree, h⟩ := h
    split at h <;> cases h
    · exact .lock _ (by simpa using hfree) (by simp [hp, ahead])
    · exact .goto _ (by simp [hp, ahead])
  case h_10 =>
    simp only [Option.ite_none_left_eq_some] at h
    obtain ⟨-, -, h⟩ := h
    split at h <;> cases h
    · exact .goto _ (by simp [hp, ahead])
    · exact .startOver _ _ hp
  case h_11 =>
    cases h
    exact .commit _ _ (by simp [hp, ahead])
  case h_12 => cases h

/-- INTERNAL: the request leaves the workers alone, and keeps the manifest, if it is there, and its
reviewer. -/
theorem put_frame (h : put c p s = some s') :
    s'.workers = s.workers ∧ s'.deletions = s.deletions ∧ s'.clock = s.clock ∧
      (s.row = none ∧ s'.reviewer = none ∨
        (∀ id, s'.present id = s.present id) ∧ s'.reviewer = s.reviewer) := by
  cases puts_of_put h with
  | goto => exact ⟨rfl, rfl, rfl, .inr ⟨fun _ => rfl, rfl⟩⟩
  | create after q hrow => exact ⟨rfl, rfl, rfl, .inl ⟨hrow, rfl⟩⟩
  | layer l q =>
    refine ⟨rfl, rfl, rfl, .inr ⟨fun id => ?_, rfl⟩⟩
    unfold State.present
    cases s.row <;> rfl
  | lock q hfree =>
    refine ⟨rfl, rfl, rfl, .inr ⟨fun _ => rfl, ?_⟩⟩
    rw [hfree]
    unfold State.reviewer
    cases s.review <;> rfl
  | startOver =>
    unfold State.startOver
    split <;> exact ⟨rfl, rfl, rfl, .inr ⟨fun _ => rfl, unlock_reviewer⟩⟩
  | commit => exact ⟨rfl, rfl, rfl, .inr ⟨fun _ => rfl, unlock_reviewer⟩⟩

/-- A put leaves the workers alone. -/
theorem Busy.after_put (hb : Busy s) (h : put c p s = some s') : Busy s' := by
  obtain ⟨hworkers, -, -, ⟨hrow, hreviewer⟩ | ⟨hrow, hreviewer⟩⟩ := put_frame h
  · refine Busy.of_idle (fun w => ?_) hreviewer
    rw [hworkers, ← task_eq_none, Option.eq_none_iff_forall_ne_some]
    intro id hw
    obtain ⟨r, hr, -⟩ := present_iff.1 (hb.task _ _ hw).1
    rw [hrow] at hr
    cases hr
  · refine ⟨fun w id hw => ?_, fun w hw => ?_⟩
    · rw [hrow, hreviewer]
      exact hb.task w id (hworkers ▸ hw)
    · rw [hworkers]
      exact hb.held w (hreviewer ▸ hw)

/-- INTERNAL: **what a worker can do**: take the review up, move on, commit the deletion, or commit
that the review is over. -/
theorem work_cases (h : work c s w = some s') :
    (∃ r v, s.row = some r ∧ s.review = some v ∧ v.holder = none ∧
      s' = { s.move w (.dangling r.id) with
        review := some { v with holder := some (.worker w) } }) ∨
    (∃ id st, (s.workers w).task = some id ∧ st.task = some id ∧
      (st.isDeleted = true → s.request ≠ .commit id) ∧ s' = s.move w st) ∨
    (∃ id, s.workers w = .deleted id ∧
      s' = { s.move w .idle with
        row := none
        review := none
        tags := s.tags.filter (·.2 ≠ id)
        deletions := s.deletions + 1 }) ∨
    ∃ id, s.workers w = .forgotten id ∧ s' = { s.move w .idle with review := none } := by
  unfold work at h
  cases hw : s.workers w with
  | idle =>
    simp only [hw, Model.TagPuts.next] at h
    split at h
    · rename_i r v hrow hreview
      obtain ⟨hfree, h⟩ := Option.ite_none_right_eq_some.1 h
      cases h
      exact .inl ⟨r, v, hrow, hreview, hfree.1, rfl⟩
    · cases h
  | dangling id =>
    simp only [hw, Option.some.injEq] at h
    refine .inr (.inl ⟨id, _, rfl, ?_, ?_, h.symm⟩)
    · split <;> rfl
    · intro hdeleted
      split at hdeleted <;> cases hdeleted
  | delete id =>
    simp only [hw, Option.ite_none_left_eq_some, Option.some.injEq] at h
    exact .inr (.inl ⟨id, _, rfl, rfl, fun _ => h.1, h.2.symm⟩)
  | deleted id =>
    simp only [hw] at h
    cases h
    exact .inr (.inr (.inl ⟨id, rfl, rfl⟩))
  | forget id =>
    simp only [hw] at h
    cases h
    exact .inr (.inl ⟨id, .forgotten id, rfl, rfl, nofun, rfl⟩)
  | forgotten id =>
    simp only [hw] at h
    cases h
    exact .inr (.inr (.inr ⟨id, rfl, rfl⟩))

/-- Each worker keeps its task. -/
theorem Busy.after_work (hb : Busy s) (h : work c s w = some s') : Busy s' := by
  rcases work_cases h with ⟨r, v, hrow, hreview, hfree, rfl⟩ | ⟨id, st, hw, hst, -, rfl⟩ |
    ⟨id, hw, rfl⟩ | ⟨id, hw, rfl⟩
  · have hidle := hb.idle (by simp [State.reviewer, hreview, hfree])
    refine ⟨fun w' id hw' => ?_, fun w' hw' => ?_⟩
    · by_cases heq : w' = w
      · subst heq
        simp only [move_workers, update_self, Stage.task, Option.some.injEq] at hw'
        subst hw'
        exact ⟨present_iff.2 ⟨r, hrow, rfl⟩, rfl⟩
      · simp only [move_workers, update_of_ne heq, hidle] at hw'
        cases hw'
    · obtain rfl : w = w' := Option.some.inj hw'
      simp [State.move]
  · exact hb.move hw hst
  · exact Busy.of_idle (hb.stop (by rw [hw]; rfl)) rfl
  · exact Busy.of_idle (hb.stop (by rw [hw]; rfl)) rfl

theorem Busy.rollback (hb : Busy s) (hw : s.workers w ≠ .idle) :
    (∀ w', (s.rollback w).workers w' = .idle) ∧ (s.rollback w).reviewer = none := by
  cases htask : (s.workers w).task with
  | none => exact absurd (task_eq_none.1 htask) hw
  | some id =>
    refine ⟨hb.stop htask, ?_⟩
    obtain ⟨v, hv, hholder⟩ := reviewer_eq_some.1 (hb.task _ _ htask).2
    simp [State.rollback, State.reviewer, hv, Review.release, hholder]

end Workers

/-! ## The request -/

section Request

variable {c : Setup} {p : Put} {s s' : State} {w : ℕ}

theorem lockTimeout_pos : 0 < lockTimeout := by decide

def Placed (c : Setup) (p : Put) (s : State) : Point → Prop
  | .validate | .config | .find => True
  | .create => s.row = none
  | .layers id todo => s.present id = true ∧ ∀ l ∈ todo, l ∈ c.blobs
  | .tagFind => s.row.isSome
  | .select id _ deadline | .lock id _ deadline | .insert id deadline =>
    s.clock < deadline ∧ ((p.tag, id) ∈ s.tags → s.present id = true) ∧
      (s.present id = true ∨ s.recreating = false ∧ 1 ≤ s.deletions)
  | .commit id => s.present id = true ∧ s.deleting = false
  | .done r => r = .created ∧ Tagged p s

structure Survives (c : Setup) (p : Put) (s : State) : Prop where
  busy : Busy s
  placed : Placed c p s s.request
  once : s.recreating = true → 1 ≤ s.deletions

/-- INTERNAL: a step of the put. -/
theorem Survives.after_put (hvalid : c.valid p.content = true) (hmembers : p.content ≠ .list [])
    (hs : Survives c p s) (h : put c p s = some s') : Survives c p s' := by
  have hbusy := hs.busy.after_put h
  have hplaced := hs.placed
  unfold put at h
  cases hp : s.request with
  | validate =>
    simp only [hp, hvalid, if_true] at h
    cases h
    exact ⟨hbusy, trivial, hs.once⟩
  | config =>
    simp only [hp] at h
    cases hc : p.content with
    | image config layers =>
      have hconfig : config ∈ c.blobs := by
        rw [hc] at hvalid
        simp only [Setup.valid, all_cons, Bool.and_eq_true, decide_eq_true_eq] at hvalid
        exact hvalid.1
      simp only [hc, if_pos hconfig] at h
      cases h
      exact ⟨hbusy, trivial, hs.once⟩
    | list members =>
      simp only [hc] at h
      cases h
      exact ⟨hbusy, trivial, hs.once⟩
  | find =>
    simp only [hp] at h
    cases h
    refine ⟨hbusy, ?_, hs.once⟩
    cases hrow : s.row with
    | none => simpa [State.goto, Placed] using hrow
    | some r => simp [State.goto, Placed, hrow]
  | create =>
    rw [hp] at hplaced
    have hrow : s.row = none := hplaced
    simp only [hp, hrow, Option.isSome_none, Bool.false_eq_true, hmembers, or_self, if_false] at h
    cases h
    refine ⟨hbusy, ?_, hs.once⟩
    cases hc : p.content with
    | image config layers =>
      rw [hc] at hvalid
      simp only [Setup.valid, all_cons, Bool.and_eq_true, all_eq_true, decide_eq_true_eq] at hvalid
      exact ⟨present_iff.2 ⟨_, rfl, rfl⟩, hvalid.2⟩
    | list members => rfl
  | layers id todo =>
    rw [hp] at hplaced
    obtain ⟨hpresent, htodo⟩ := hplaced
    cases todo with
    | nil =>
      simp only [hp] at h
      cases h
      obtain ⟨r, hr, -⟩ := present_iff.1 hpresent
      exact ⟨hbusy, by simp [State.goto, Placed, hr], hs.once⟩
    | cons l todo =>
      have hl : ¬ l ∉ c.blobs := not_not.2 (htodo l mem_cons_self)
      simp only [hp, if_neg hl, if_pos hpresent, Option.ite_none_left_eq_some,
        Option.some.injEq] at h
      obtain ⟨-, rfl⟩ := h
      refine ⟨hbusy, ⟨?_, fun l' hl' => htodo l' (mem_cons_of_mem _ hl')⟩, hs.once⟩
      obtain ⟨r, hr, hid⟩ := present_iff.1 hpresent
      exact present_iff.2 ⟨{ r with layers := r.layers ++ [l] }, by simp [hr], hid⟩
  | tagFind =>
    rw [hp] at hplaced
    obtain ⟨r, hr⟩ := Option.isSome_iff_exists.1 hplaced
    simp only [hp, hr] at h
    cases h
    have hpresent : s.present r.id = true := present_iff.2 ⟨r, hr, rfl⟩
    refine ⟨hbusy, ⟨?_, fun _ => hpresent, .inl hpresent⟩, hs.once⟩
    exact Nat.lt_add_of_pos_right lockTimeout_pos
  | select id before deadline =>
    rw [hp] at hplaced
    simp only [hp, if_neg (Nat.not_le.2 hplaced.1)] at h
    split at h <;> cases h <;> exact ⟨hbusy, hplaced, hs.once⟩
  | lock id before deadline =>
    rw [hp] at hplaced
    simp only [hp, if_neg (Nat.not_le.2 hplaced.1), Option.ite_none_left_eq_some] at h
    obtain ⟨-, h⟩ := h
    split at h <;> cases h <;> exact ⟨hbusy, hplaced, hs.once⟩
  | insert id deadline =>
    rw [hp] at hplaced
    obtain ⟨hclock, htag, hgone⟩ := hplaced
    simp only [hp, if_neg (Nat.not_le.2 hclock), Option.ite_none_left_eq_some] at h
    obtain ⟨hdeleting, h⟩ := h
    split at h
    · rename_i hthere
      cases h
      exact ⟨hbusy, ⟨hthere.elim htag fun hpresent => hpresent, Bool.eq_false_iff.2 hdeleting⟩,
        hs.once⟩
    rename_i hviolation
    cases h
    -- the foreign key is violated: the request starts over
    obtain ⟨hfirst, hdeleted⟩ := hgone.resolve_left fun hpresent => hviolation (.inr hpresent)
    have hover : s.unlock.startOver =
        { s.unlock with request := .validate, recreating := true } :=
      if_neg (by rw [State.unlock, hfirst]; exact Bool.false_ne_true)
    rw [hover] at hbusy ⊢
    exact ⟨hbusy, trivial, fun _ => hdeleted⟩
  | commit id =>
    rw [hp] at hplaced
    simp only [hp] at h
    cases h
    obtain ⟨r, hr, rfl⟩ := present_iff.1 hplaced.1
    exact ⟨hbusy, ⟨rfl, r, hr, mem_cons_self⟩, hs.once⟩
  | done r =>
    simp only [hp] at h
    cases h

/-- Nothing the put looks at has changed. -/
theorem Placed.of_frame {q} (h : Placed c p s q) (hrow : s'.row = s.row)
    (htags : s'.tags = s.tags) (hrecreating : s'.recreating = s.recreating)
    (hdeletions : s'.deletions = s.deletions) (hclock : q.deadline.all (s'.clock < ·) = true)
    (hdeleting : ∀ id, q = .commit id → s'.deleting = false) : Placed c p s' q := by
  have hpresent : ∀ id, s'.present id = s.present id := by
    intro id
    unfold State.present
    rw [hrow]
  cases q with
  | validate | config | find => trivial
  | create => exact hrow.trans h
  | layers id todo => exact ⟨(hpresent id).trans h.1, h.2⟩
  | tagFind =>
    simp only [Placed] at h ⊢
    rw [hrow]
    exact h
  | select id before deadline | lock id before deadline | insert id deadline =>
    simp only [Point.deadline, Option.all_some, decide_eq_true_eq] at hclock
    simp only [Placed, htags, hrecreating, hdeletions, hpresent] at h ⊢
    exact ⟨hclock, h.2⟩
  | commit id => exact ⟨(hpresent id).trans h.1, hdeleting id rfl⟩
  | done r =>
    obtain ⟨hr, row, hrow', htag⟩ := h
    exact ⟨hr, row, hrow.trans hrow', htags ▸ htag⟩

theorem Placed.deadline {q} (h : Placed c p s q) : q.deadline.all (s.clock < ·) = true := by
  cases q with
  | select id before deadline | lock id before deadline | insert id deadline =>
    simp only [Point.deadline, Option.all_some, decide_eq_true_eq]
    exact h.1
  | _ => rfl

section

variable (hs : Survives c p s)
include hs

theorem Survives.after_tick {d} (hfair : s.request.deadline.all (s.clock + d < ·) = true) :
    Survives c p { s with clock := s.clock + d } := by
  refine ⟨{ hs.busy with }, hs.placed.of_frame rfl rfl rfl rfl hfair fun id hq => ?_, hs.once⟩
  have hplaced := hs.placed
  rw [hq] at hplaced
  exact hplaced.2

/-- A manifest is deleted. -/
theorem Survives.deleted {id} (hw : s.workers w = .deleted id)
    (hbusy : Busy s') (hs' : s' = { s.move w .idle with
      row := none
      review := none
      tags := s.tags.filter (·.2 ≠ id)
      deletions := s.deletions + 1 })
    (hfirst : s.deletions = 0) (hdone : isDone s.request = false)
    (hclear : between s.request = false) : Survives c p s' := by
  obtain ⟨hpresent, hreviewer⟩ := hs.busy.task w id (by rw [hw]; rfl)
  have hrecreating : s.recreating = false := by
    cases hr : s.recreating with
    | false => rfl
    | true =>
      have := hs.once hr
      omega
  have htags : ∀ id', ((p.tag, id') ∈ s.tags → s.present id' = true) →
      (p.tag, id') ∉ s.tags.filter (·.2 ≠ id) := by
    intro id' hthere hmem
    obtain ⟨hmem, hne⟩ := mem_filter.1 hmem
    exact (of_decide_eq_true hne) (present_unique (hthere hmem) hpresent)
  subst hs'
  refine ⟨hbusy, ?_, fun _ => Nat.le_add_left _ _⟩
  have hplaced := hs.placed
  cases hp : s.request with
  | validate | config | find | create => simp only [State.move, hp, Placed]
  | layers | tagFind => simp [hp, between] at hclear
  | done r => simp [hp, isDone] at hdone
  | select id' before deadline | lock id' before deadline | insert id' deadline =>
    rw [hp] at hplaced
    simp only [State.move, hp, Placed]
    exact ⟨hplaced.1, fun hmem => absurd hmem (htags _ hplaced.2.1),
      .inr ⟨hrecreating, Nat.le_add_left _ _⟩⟩
  | commit id' =>
    -- the deletion would have had to wait
    rw [hp] at hplaced
    have hdeleting : s.deleting = true := by simp [State.deleting, hreviewer, hw, Stage.isDeleted]
    rw [hplaced.2] at hdeleting
    cases hdeleting

/-- INTERNAL: a step of a worker. -/
theorem Survives.after_work (h : work c s w = some s')
    (hfair : Fair s (.work w)) (hclear : Clear s (.work w)) : Survives c p s' := by
  have hbusy := hs.busy.after_work h
  rcases work_cases h with ⟨r, v, hrow, hreview, hfree, rfl⟩ | ⟨id, st, hw, hst, hcommit, rfl⟩ |
    ⟨id, hw, hs'⟩ | ⟨id, hw, rfl⟩
  · refine ⟨hbusy, hs.placed.of_frame rfl rfl rfl rfl hs.placed.deadline fun id' _ => ?_, hs.once⟩
    simp [State.deleting, State.reviewer, Stage.isDeleted]
  · obtain ⟨hpresent, hreviewer⟩ := hs.busy.task w id hw
    refine ⟨hbusy, hs.placed.of_frame rfl rfl rfl rfl hs.placed.deadline fun id' hq => ?_, hs.once⟩
    have hreviewer' : (s.move w st).reviewer = some w := hreviewer
    rw [State.deleting, hreviewer', Option.any_some, move_workers, update_self]
    -- the manifest of the task is that of the tag
    have hplaced := hs.placed
    rw [hq] at hplaced
    have hid := present_unique hplaced.1 hpresent
    cases hdeleted : st.isDeleted with
    | false => rfl
    | true => exact absurd (hid ▸ hq) (hcommit hdeleted)
  · have hdeleted : (s.workers w).isDeleted = true := by rw [hw]; rfl
    exact hs.deleted hw hbusy hs' (hfair hdeleted).1 (hfair hdeleted).2 (hclear hdeleted)
  · refine ⟨hbusy, hs.placed.of_frame rfl rfl rfl rfl hs.placed.deadline fun id' _ => ?_, hs.once⟩
    rfl

theorem Survives.rollback (hw : s.workers w ≠ .idle) : Survives c p (s.rollback w) := by
  obtain ⟨hidle, hnone⟩ := hs.busy.rollback hw
  refine ⟨Busy.of_idle hidle hnone, hs.placed.of_frame rfl rfl rfl rfl hs.placed.deadline
    fun id' _ => ?_, hs.once⟩
  rw [State.deleting, hnone, Option.any_none]

end

/-- Every step lets the manifest survive. -/
theorem Survives.after_step {a} (hvalid : c.valid p.content = true)
    (hmembers : p.content ≠ .list []) (hs : Survives c p s) (hfair : Fair s a)
    (hclear : Clear s a) (h : step c p s a = some s') : Survives c p s' := by
  cases a with
  | tick d =>
    cases h
    exact hs.after_tick hfair
  | put => exact hs.after_put hvalid hmembers h
  | expire => exact hfair.elim
  | work w => exact hs.after_work h hfair hclear
  | fail w =>
    obtain ⟨hw, ⟨⟩⟩ := Option.ite_none_left_eq_some.1 h
    exact hs.rollback hw

end Request

/-! ## To the end -/

section Progress

variable {c : Setup} {p : Put} {s s' : State}

/-- How many steps of its own the request is from its end, at most. -/
def remaining (p : Put) (s : State) : ℕ :=
  ahead p s.request + if s.recreating then 0 else layerCount p + 10

theorem remaining_put (h : put c p s = some s') : remaining p s' < remaining p s := by
  cases puts_of_put h with
  | goto q hq | create _ q _ hq | layer _ q hq | lock q _ hq | commit _ q hq =>
    exact Nat.add_lt_add_right hq _
  | startOver id deadline hp =>
    cases hr : s.recreating <;>
      simp [remaining, State.startOver, State.unlock, State.goto, hp, hr, ahead]

/-- The put can go on. -/
theorem Survives.put_isSome (hs : Survives c p s) (hdone : isDone s.request = false)
    (hfree : s.reviewer = none) : (put c p s).isSome = true := by
  have hplaced := hs.placed
  have hdeleting : ¬ s.deleting = true := by simp [State.deleting, hfree]
  unfold put
  split <;> rename_i hp <;> rw [hp] at hplaced
  case h_1 | h_3 | h_5 | h_11 => rfl
  case h_2 | h_7 => split <;> rfl
  case h_4 => split <;> rfl
  case h_6 =>
    rw [if_neg hdeleting]
    split
    · rfl
    · split <;> rfl
  case h_8 =>
    rw [if_neg (Nat.not_le.2 hplaced.1)]
    split <;> rfl
  case h_9 =>
    rw [if_neg (Nat.not_le.2 hplaced.1), hfree]
    simp only [Option.isSome_none, Bool.false_eq_true, if_false]
    split <;> rfl
  case h_10 =>
    rw [if_neg (Nat.not_le.2 hplaced.1), if_neg hdeleting]
    split <;> rfl
  case h_12 => simp [hp, isDone] at hdone

/-- INTERNAL: **the request goes on**, or it does once the worker it waits for has failed. -/
theorem Survives.goes_on (hs : Survives c p s) (hdone : isDone s.request = false) :
    (put c p s).isSome = true ∨
      ∃ w s', step c p s (.fail w) = some s' ∧ (put c p s').isSome = true := by
  cases hreviewer : s.reviewer with
  | none => exact .inl (hs.put_isSome hdone hreviewer)
  | some w =>
    have hw := hs.busy.held w hreviewer
    exact .inr ⟨w, s.rollback w, if_neg hw,
      (hs.rollback hw).put_isSome hdone (hs.busy.rollback hw).2⟩

end Progress

/-! ## The request survives -/

/-- **A manifest put by tag survives**, unless it is a list without members, if a worker deletes it
once at most, not between the two lookups of the request nor after it, and no lock timeout expires:
the request succeeds after a bounded number of steps, and the manifest is there and tagged. -/
theorem put_by_tag_survives (c : Setup) (p : Put) (hvalid : c.valid p.content = true)
    (hmembers : p.content ≠ .list []) (clock serial : ℕ) (found : Option (Row × Option ℕ))
    (tags : List (TagName × ℕ)) (s : State)
    (h : Reach (step c p) (fun s a => Fair s a ∧ Clear s a) (start clock serial found tags) s) :
    (∀ r, s.request = .done r → r = .created ∧ Tagged p s) ∧
    (isDone s.request = false → (step c p s .put).isSome = true ∨
      ∃ w s', step c p s (.fail w) = some s' ∧ (step c p s' .put).isSome = true) ∧
    ∀ s', step c p s .put = some s' → remaining p s' < remaining p s := by
  have hs : Survives c p s := by
    refine Reach.invariant (P := Survives c p) ?_ ?_ h
    · refine ⟨Busy.of_idle (fun _ => rfl) ?_, trivial, nofun⟩
      unfold start State.reviewer
      cases found.bind (·.2) <;> rfl
    · intro s a s' _ hs hok hstep
      exact hs.after_step hvalid hmembers hok.1 hok.2 hstep
  refine ⟨fun r hr => ?_, hs.goes_on, fun s' => remaining_put⟩
  have hplaced := hs.placed
  rw [hr] at hplaced
  exact hplaced

def twoBlobs (settings : Model.Settings) : Setup := ⟨settings, [⟨.sha256, 1⟩, ⟨.sha256, 2⟩], [], []⟩

/-- An image with one layer, put as `1`. -/
def anImage : Put := ⟨1, .image ⟨.sha256, 1⟩ [⟨.sha256, 2⟩]⟩

/-- The image has been put before, was never tagged, and its review is due. -/
def untagged : State := start 1 1 (some (⟨0, [⟨.sha256, 2⟩]⟩, some 0)) []

/-- The worker commits while the request waits for it with its tag. The manifest is put again. -/
theorem waiting_put_survives :
    ∃ s, Reach (step (twoBlobs Model.standard) anImage) (fun s a => Fair s a ∧ Clear s a) untagged
      s ∧ s.deletions = 1 ∧ Tagged anImage s := by
  obtain ⟨s, hreach, hdone, hdeletions⟩ : ∃ s,
      Reach (step (twoBlobs Model.standard) anImage) (fun s a => Fair s a ∧ Clear s a) untagged s ∧
        s.request = .done .created ∧ s.deletions = 1 :=
    exists_reach (.replicate 3 .put ++ [.work 0, .work 0, .put, .put, .work 0, .work 0] ++
      .replicate 12 .put) (by decide)
  exact ⟨s, hreach, hdeletions, ((put_by_tag_survives (twoBlobs Model.standard) anImage (by decide)
    nofun 1 1 _ [] s hreach).1 _ hdone).2⟩

/-- The worker commits between `dbPutManifest` and `dbTagManifest`; or it deletes a manifest that
has just been put, before its layer is inserted. The request fails. -/
theorem put_finds_no_manifest :
    (∃ s, Reach (step (twoBlobs Model.standard) anImage) Fair untagged s ∧
      s.request = .done .manifestNotInDatabase ∧ s.deletions = 1) ∧
    ∃ s, Reach (step (twoBlobs Model.immediate) anImage) Fair (start 1 1 none []) s ∧
      s.request = .done .database ∧ s.deletions = 1 :=
  ⟨exists_reach (.replicate 3 (.work 0) ++ .replicate 3 .put ++ [.work 0, .put]) (by decide),
    exists_reach (.replicate 4 .put ++ .tick 1 :: .replicate 4 (.work 0) ++ [.put]) (by decide)⟩

end ContainerRegistry.Analysis.TagPuts
