import ContainerRegistry.Analysis.Footprints
import ContainerRegistry.Analysis.Steps
import ContainerRegistry.Library.Runs
import ContainerRegistry.Model.RecordLocks

/-!
# Transactions that wait for each other's review records

`FindAndLockNBefore` orders only its own locks. The trigger behind a tag switch locks the record of
the old manifest after that of the new one, and a list delete comes to the children in no order. No
cycle forms as long as such records stand after those the transaction has locked (`Ascends`).
-/

namespace ContainerRegistry.Analysis.RecordLocks

open Library Model.RecordLocks List Function
open Model hiding step init

variable {c : Settings}

/-! ## What a step does to the locks -/

theorem mem_locks_of_ne {s s' a} (h : Steps c s a s') {u}
    (hu : actor a ≠ some u) {l} (hl : l.owner = u) : l ∈ s'.db.locks ↔ l ∈ s.db.locks := by
  have other : ∀ {t : ℕ}, some t ≠ some u → u ≠ t := fun hne heq => hne (by rw [heq])
  cases h with
  | exec t pick q next v db hreq hw =>
    obtain ⟨-, -, rfl⟩ := Store.write_eq_done hw
    exact Store.mem_staged_locks_of_ne _ _ (other hu) hl
  | violation t pick q next v hreq hw | commit t pick p hreq | finish t pick r hreq
  | fail t hbusy => exact Store.mem_release_locks_of_ne _ _ (other hu) hl
  | _ => exact Iff.rfl

theorem sound_of_steps {s s' a} (h : Steps c s a s') (hs : Sound schema s.db) :
    Sound schema s'.db := by
  cases h with
  | exec t pick q next v db hreq hw =>
    obtain ⟨hg, hc, rfl⟩ := Store.write_eq_done hw
    exact hs.staged hg hc
  | violation t pick q next v hreq hw => exact hs.rollback t
  | commit t pick p hreq => exact hs.commit t
  | finish t pick r hreq | fail t hbusy => exact hs.rollback t
  | _ => exact hs

theorem lt_of_above {s t r h} (habove : Above s t r) (hheld : s.db.Holds t h.key) : h < r :=
  habove _ hheld rfl h (recordOf_key h)

variable {r : Record}

/-- A session that waits takes no step. -/
theorem actor_ne_of_waiting {waiting : ℕ → Option Record} {a t}
    (hrun : ∀ u ∈ runner a, waiting u = none) (ht : settled waiting a t = some r) :
    actor a ≠ some t ∧ waiting t = some r := by
  cases a with
  | tick d => exact ⟨nofun, ht⟩
  | fail u =>
    by_cases htu : t = u
    · subst htu
      rw [settled, update_self] at ht
      cases ht
    · rw [settled, update_of_ne htu] at ht
      exact ⟨fun h => htu (Option.some.inj h).symm, ht⟩
  | _ =>
    have hwait : waiting t = some r := ht
    refine ⟨fun h => ?_, hwait⟩
    cases h
    rw [hrun t rfl] at hwait
    cases hwait

/-! ## Which records a call comes to -/

/-- The records that triggers and cascades write: that of the manifest a tag is taken from, and for
a deleted manifest its own and those of its children. SOURCE: datastore/migrations/20210503162153 to
20210503162603 -/
def triggered (view : List Row) : Proc → List Record
  | .body repo (.tag name id) _ =>
    ((findTagByName view repo name).filter (· ≠ id)).toList.map (⟨repo, ·⟩)
  | .body repo (.untag name _) _ => (findTagByName view repo name).toList.map (⟨repo, ·⟩)
  | .body repo (.delete digest _ _) _ =>
    (findManifestByDigest view repo digest).toList.flatMap fun m =>
      (m.1 :: references view repo m.1).map (⟨repo, ·⟩)
  | .manifestTask task .delete =>
    (task.id :: references view task.repo task.id).map (⟨task.repo, ·⟩)
  | .manifestTask task _ => [⟨task.repo, task.id⟩]
  | _ => []

/-- The records a statement locks. -/
theorem mem_recordsOf {e} (h : r ∈ recordsOf e) :
    r.key ∈ e.lock ∨ ∃ after count tuple,
      .manifestReview r.repo r.id after count tuple ∈ e.ins ++ e.del := by
  simp only [recordsOf, mem_filterMap, mem_append, mem_flatMap] at h
  obtain ⟨k, hk, hr⟩ := h
  cases k <;> simp only [recordOf, reduceCtorEq] at hr
  cases hr
  rcases hk with ⟨row, hrow, hk⟩ | hk
  · right
    cases row <;> simp [rowKeys] at hk
    obtain ⟨rfl, rfl⟩ := hk
    exact ⟨_, _, _, mem_append.2 hrow⟩
  · exact .inl hk

def queues : Stmt → Bool
  | .lockManifestReviews _ _ _ | .lockManifestReview _ _ => true
  | q => .manifestReviews ∈ inserts q ++ deletes q

variable {env : Env}

/-- Statements that queue nothing lock no review. -/
theorem not_mem_recordsOf {q} (hq : queues q = false) : r ∉ recordsOf (q.effect env) := by
  intro h
  rcases mem_recordsOf h with h | ⟨after, count, tuple, h⟩
  · unfold Stmt.effect Record.key at h
    cases q <;> first
      | (cases hq; done)
      | grind [Env.createBlob, Env.linkBlob, Env.unlinkBlob, Env.associateManifest, Env.deleteBlob,
          Env.associateLayerBlob, Env.deleteBlobReview, Env.postponeBlobReview, writes, waits,
          locks, noEffect]
  · have htable : .manifestReviews ∈ inserts q ++ deletes q := by
      rcases mem_append.1 h with h | h
      · exact mem_append_left _ (table_mem_inserts h)
      · exact mem_append_right _ (table_mem_deletes h)
    cases q <;> simp [queues, htable] at hq

theorem mem_map_record {repo : RepoKey} {ids : List ℕ} :
    r ∈ ids.map (⟨repo, ·⟩ : ℕ → Record) ↔ r.repo = repo ∧ r.id ∈ ids := by
  grind [cases Record]

theorem recordsOf_createOrUpdateTag {repo name id}
    (h : r ∈ recordsOf (env.createOrUpdateTag repo name id)) :
    r ∈ ((findTagByName env.view repo name).filter (· ≠ id)).toList.map
      (⟨repo, ·⟩ : ℕ → Record) := by
  have hreview := mem_recordsOf h
  rw [mem_map_record]
  unfold Env.createOrUpdateTag writes locks Env.manifestReview at hreview
  grind [isManifestReviewOf, Record.key]

theorem recordsOf_deleteTagByName {repo name} (h : r ∈ recordsOf (env.deleteTagByName repo name)) :
    r ∈ (findTagByName env.view repo name).toList.map (⟨repo, ·⟩ : ℕ → Record) := by
  have hreview := mem_recordsOf h
  rw [mem_map_record]
  unfold Env.deleteTagByName writes noEffect Env.manifestReview at hreview
  grind [isManifestReviewOf, Record.key]

theorem recordsOf_deleteManifest {repo id} (h : r ∈ recordsOf (env.deleteManifest repo id)) :
    r ∈ (id :: references env.view repo id).map (⟨repo, ·⟩ : ℕ → Record) := by
  have hreview := mem_recordsOf h
  rw [mem_map_record]
  unfold Env.deleteManifest writes Env.manifestReview Env.blobReview at hreview
  grind [isManifestReviewOf, isBlobReviewOf, cascadesFrom, Record.key]

theorem recordsOf_review {repo : RepoKey} {id : ℕ} {ins view : List Row}
    (hins : ∀ row ∈ ins, isManifestReviewOf repo [id] row)
    (h : r ∈ recordsOf (writes ins (view.filter (isManifestReviewOf repo [id])))) :
    r ∈ [id].map (⟨repo, ·⟩ : ℕ → Record) := by
  rw [mem_map_record]
  rcases mem_recordsOf h with h | ⟨after, count, tuple, h⟩
  · cases h
  · grind [isManifestReviewOf, writes]

/-- **Where calls come to review records** outside `FindAndLockBefore` and `FindAndLockNBefore`: at
the records their triggers and cascades write, and nowhere else. -/
theorem comesTo_triggered {s : State} {t : ℕ} (h : ComesTo c s t r)
    (hsel : selects (s.sess t).proc = false) : r ∈ triggered (s.db.view t) (s.sess t).proc := by
  obtain ⟨-, hr, -, -⟩ := h
  have hasks := asks_request c s t none
  unfold awaited at hr
  split at hr
  · cases hr
  · next q next v hne hreq =>
    rw [hreq] at hasks
    generalize hp : (s.sess t).proc = p at hasks hsel
    cases hasks with
    | exec _ hexec =>
      cases hexec with
      | lock => cases hsel
      | tag repo name id since => exact recordsOf_createOrUpdateTag hr
      | untag repo name id since => exact recordsOf_deleteTagByName hr
      | list | imageCreate => exact (hne _ _ _ rfl).elim
      | delete repo digest l children since =>
        simp only [Stmt.effect] at hr
        split at hr
        next => cases hr
        next id payload hfind =>
          rw [triggered, hfind]
          simpa using recordsOf_deleteManifest hr
      | manifestNext => simp [request, hp] at hreq
      | manifestDelete task => exact recordsOf_deleteManifest hr
      | manifestForget task => exact recordsOf_review (fun _ h => absurd h not_mem_nil) hr
      | manifestPostpone task =>
        simp only [Stmt.effect, Env.postponeManifestReview] at hr
        split at hr
        next => cases hr
        next =>
          refine recordsOf_review (fun row hrow => ?_) hr
          rw [mem_singleton.1 hrow]
          simp [isManifestReviewOf]
      | _ => exact absurd hr (not_mem_recordsOf rfl)
  · cases hr

/-! ## Runs without deadlock -/

/-- A record that a trigger or a cascade writes stands, in the order of the primary key, after every
record its transaction has locked. -/
def Ascends (s : System) : Move → Prop
  | .seize t r => selects (s.state.sess t).proc ∨ Above s.state t r
  | _ => True

instance (s : System) (m : Move) : Decidable (Ascends s m) := by
  cases m <;> dsimp only [Ascends] <;> infer_instance

theorem above_of_ascends {s t} (hok : Ascends s (.seize t r))
    (hcomes : ComesTo c s.state t r) : Above s.state t r := by
  rcases hok with hsel | habove
  · exact (hcomes.2.2.2 hsel).1
  · exact habove

/-- A session that takes a lock waits no more. -/
theorem ordered_take {s : System} (h : Ordered s.waiting s.Held) (t : ℕ) (r : Record) :
    Ordered (s.take t r).waiting (s.take t r).Held := by
  refine h.step fun u k hu => .inl ?_
  rw [take_waiting] at hu
  have hne : u ≠ t := by
    rintro rfl
    rw [update_self] at hu
    cases hu
  rw [update_of_ne hne] at hu
  refine ⟨hu, fun k' hk' => ?_⟩
  exact (Store.mem_seize_locks_of_ne _ _ hne rfl).1 hk'

/-- INTERNAL: **one move**. Whoever waits holds smaller records only. -/
theorem ordered_step {s s' : System} {m : Move} (h : Ordered s.waiting s.Held)
    (hok : Ascends s m) (hs : step c s m = some s') : Ordered s'.waiting s'.Held := by
  cases m with
  | act a =>
    simp only [step] at hs
    split at hs
    next hrun =>
      obtain ⟨state, hstate, rfl⟩ := Option.map_eq_some_iff.1 hs
      refine h.step fun t k ht => .inl ?_
      obtain ⟨hactor, hwait⟩ := actor_ne_of_waiting hrun ht
      refine ⟨hwait, fun k' hk' => ?_⟩
      exact (mem_locks_of_ne (steps_of_step hstate) hactor rfl).1 hk'
    next => cases hs
  | seize t r =>
    simp only [step] at hs
    split at hs
    next hask =>
      split at hs
      next =>
        cases hs
        exact ordered_take h t r
      next =>
        cases hs
        have habove := above_of_ascends hok hask.2
        refine h.step fun u k (hu : update s.waiting t (some r) u = some k) => ?_
        by_cases hut : u = t
        · subst hut
          rw [update_self] at hu
          cases hu
          exact .inr fun k' hk' => lt_of_above habove hk'
        · rw [update_of_ne hut] at hu
          exact .inl ⟨hu, fun _ hk' => hk'⟩
    next => cases hs
  | wake t =>
    simp only [step] at hs
    split at hs
    next => cases hs
    next r _ =>
      split at hs
      next =>
        cases hs
        exact ordered_take h t r
      next => cases hs

/-- **No deadlock on ascending runs.** If each record that a trigger or a cascade writes stands
after those its transaction has locked, no transactions wait for each other's records in a cycle. -/
theorem never_deadlocked {s : System} (h : Reach (step c) Ascends init s) : ¬ Deadlocked s := by
  apply Ordered.no_deadlock
  refine h.invariant (P := fun s => Ordered s.waiting s.Held) ?_ ?_
  · intro t k ht
    cases ht
  · intro s m s' _ hord hok hs
    exact ordered_step hord hok hs

/-- **A record has one holder**, in every state of every run. -/
theorem one_holder {ok : System → Move → Prop} {s} (h : Reach (step c) ok init s) {t u}
    (ht : s.Held t r) (hu : s.Held u r) : t = u := by
  have hsound : Sound schema s.state.db := by
    refine h.invariant (P := fun s => Sound schema s.state.db) Sound.empty ?_
    intro s m s' _ hs _ hstep
    unfold step at hstep
    split at hstep
    · split at hstep
      next =>
        obtain ⟨state, hstate, rfl⟩ := Option.map_eq_some_iff.1 hstep
        exact sound_of_steps (steps_of_step hstate) hs
      next => cases hstep
    -- a lock is taken only if it is free
    all_goals repeat' split at hstep
    all_goals cases hstep
    all_goals first
      | exact hs
      | exact hs.seize ‹_›
  exact hsound.exclusion u t r.key hu _ ht

/-- **Every run of the program is a run here**, one in which no session has to wait. -/
theorem reach_of_program {ok : State → Action → Prop} {s}
    (h : Reach (Model.step c) ok Model.init s) :
    Reach (step c) (fun _ _ => True) init ⟨s, fun _ => none⟩ := by
  induction h with
  | init => exact .init
  | @next s s' a _ _ hs ih =>
    refine ih.next (a := .act a) trivial ?_
    have hquiet : settled (fun _ => none) a = fun _ => none := by
      cases a with
      | fail t =>
        exact update_eq_self_iff.2 rfl
      | _ => rfl
    simp [step, hs, hquiet]

/-! ## Opposite tag switches -/

namespace Sample

open Model.Sample

/-- A second image over the same configuration. Its manifest gets the id 5. -/
def other : Image := ⟨repo, ⟨.sha256, 5⟩, config, []⟩

/-- Both images are pushed and tagged, `image` as `1` and `other` as `2`, half an hour before their
reviews. -/
def pushed : List Action :=
  push ++ calls 1 (.putImage other) 9 ++ calls 1 (.tagManifest repo 2 other.digest) 7 ++
    [.tick (day - 1800 * second)]

/-- Session 1 moves the tag `1` to `other`, session 2 the tag `2` to `image`. Both have locked the
record of the manifest they tag. -/
def opposite : List Move :=
  (pushed ++ calls 1 (.tagManifest repo 1 other.digest) 5 ++
      calls 2 (.tagManifest repo 2 image.digest) 5).map .act ++
    [.seize 1 ⟨repo, 2⟩, .seize 2 ⟨repo, 5⟩]

/-- Session 1 moves the tag `2` to `image`, session 2 tags `other` once more. Session 1 waits
for session 2. -/
def ascending : List Move :=
  (pushed ++ calls 1 (.tagManifest repo 2 image.digest) 5 ++
      calls 2 (.tagManifest repo 3 other.digest) 5).map .act ++
    [.seize 1 ⟨repo, 5⟩]

end Sample

/-- The trigger of a tag switch comes to the record of the old manifest. -/
theorem switch_comes_to_old : ∃ s, ComesTo standard s 1 ⟨Model.Sample.repo, 2⟩ ∧
    ⟨Model.Sample.repo, 2⟩ ∈ triggered (s.db.view 1) (s.sess 1).proc := by
  obtain ⟨s, -, h, hsel⟩ : ∃ s, Reach (Model.step standard) (fun _ _ => True) Model.init s ∧
      ComesTo standard s 1 ⟨Model.Sample.repo, 2⟩ ∧ selects (s.sess 1).proc = false :=
    exists_reach
      (Sample.pushed ++ calls 1 (.tagManifest Model.Sample.repo 1 Sample.other.digest) 5)
      (by decide +kernel)
  exact ⟨s, h, comesTo_triggered h hsel⟩

/-- A session that waits, on a run that ascends. -/
theorem ascending_switch_waits : ∃ s, Reach (step standard) Ascends init s ∧
    s.waiting 1 = some ⟨Model.Sample.repo, 5⟩ ∧ ¬ Deadlocked s := by
  obtain ⟨s, hs, hwait⟩ : ∃ s, Reach (step standard) Ascends init s ∧
      s.waiting 1 = some ⟨Model.Sample.repo, 5⟩ :=
    exists_reach Sample.ascending (by decide +kernel)
  exact ⟨s, hs, hwait, never_deadlocked hs⟩

/-- **Two tag switches in opposite directions deadlock.** Each holds the record of the manifest it
moves its tag to and waits, in the trigger, for the other one. -/
theorem opposite_switches_deadlock :
    ∃ s, Reach (step standard) (fun _ _ => True) init s ∧ Deadlocked s := by
  obtain ⟨s, hs, h12, h21⟩ : ∃ s, Reach (step standard) (fun _ _ => True) init s ∧
      WaitsFor s.waiting s.Held 1 2 ∧ WaitsFor s.waiting s.Held 2 1 :=
    exists_reach Sample.opposite (by decide +kernel)
  exact ⟨s, hs, .of_pair h12 h21⟩

end ContainerRegistry.Analysis.RecordLocks
