import ContainerRegistry.Analysis.Integrity

/-!
# When online garbage collection spares what is in use

A transaction that tags or lists a manifest locks its review record only if that is due within the
review window; otherwise time alone keeps a worker away. Every transaction has to commit within some
`L`, no longer than the window, and every delay has to be at least `2 * L` (`Prompt`).
-/

namespace ContainerRegistry.Analysis

open Library Model List

def isCommit : Req → Bool
  | .commit _ => true
  | _ => false

/-- The condition on a run: whoever commits does so less than `L` after its transaction
began. -/
def Prompt (c : Settings) (L : ℕ) (s : State) : Action → Prop
  | .go t pick => isCommit (request c s t pick) → s.clock < (s.sess t).started + L
  | _ => True

instance (c : Settings) (L : ℕ) (s : State) : ∀ a, Decidable (Prompt c L s a)
  | .go t pick => inferInstanceAs (Decidable (isCommit (request c s t pick) → _))
  | .tick _ | .start _ _ | .fail _ | .reviewFails _ | .storageFails _ _ => instDecidableTrue

/-! ## What the statements do to reviews and references -/

/-- INTERNAL: a review record has the delay of an event, from the start of the transaction, or was
moved on by a worker. -/
theorem review_mem_ins {q : Stmt} {env : Env} {repo : RepoKey} {id count tuple : ℕ} {after : ℕ}
    (hr : .manifestReview repo id after count tuple ∈ (q.effect env).ins) :
    (∃ e, after = env.settings.gcReviewAfter env.now e) ∨
    (q = .postponeManifestReview repo id after count ∧
      ∃ a n, .manifestReview repo id a n tuple ∈ env.view) := by
  have upsert : ∀ {e repo' id'}, Row.manifestReview repo id after count tuple =
      env.manifestReview e repo' id' → after = env.settings.gcReviewAfter env.now e := by
    intro e repo' id' heq
    obtain ⟨n, tu, h⟩ := env.manifestReview_eq e repo' id'
    rw [h] at heq
    exact (Row.manifestReview.inj heq).2.2.1
  have deleted : ∀ {repo' id'}, Row.manifestReview repo id after count tuple ∈
      (env.deleteManifest repo' id').ins → ∃ e, after = env.settings.gcReviewAfter env.now e := by
    intro repo' id' hr
    simp only [Env.deleteManifest, writes_ins, mem_append, mem_map] at hr
    rcases hr with (⟨_, -, heq⟩ | ⟨_, -, heq⟩) | ⟨_, -, heq⟩
    · exact ⟨_, upsert heq.symm⟩
    · simp [Env.blobReview] at heq
    · simp [Env.blobReview] at heq
  have htable := table_mem_inserts hr
  cases q <;> simp [inserts, table] at htable
  case createOrUpdateTag repo' name id' =>
    simp only [Stmt.effect, Env.createOrUpdateTag] at hr
    split at hr
    · simp at hr
    · split at hr
      · simp at hr
      · simp only [writes_ins, mem_cons, not_mem_nil, or_false, reduceCtorEq, false_or] at hr
        exact .inl ⟨_, upsert hr⟩
  case deleteTagByName repo' name =>
    simp only [Stmt.effect, Env.deleteTagByName] at hr
    split at hr
    · simp at hr
    · split at hr
      · simp only [writes_ins, mem_singleton] at hr
        exact .inl ⟨_, upsert hr⟩
      · simp at hr
  case createManifest repo' digest payload =>
    simp only [Stmt.effect, Env.createManifest, writes_ins, mem_cons, reduceCtorEq, false_or,
      mem_flatMap, Row.manifestReview.injEq] at hr
    rcases hr with ⟨-, -, h, -⟩ | ⟨d, -, hr⟩
    · exact .inl ⟨_, h⟩
    · unfold Env.trackConfiguration at hr
      split at hr <;> simp at hr
  case deleteManifest repo' digest =>
    simp only [Stmt.effect] at hr
    split at hr
    · simp at hr
    · exact .inl (deleted hr)
  case deleteManifestByID repo' id' => exact .inl (deleted hr)
  case postponeManifestReview repo' id' after' count' =>
    simp only [Stmt.effect, Env.postponeManifestReview] at hr
    split at hr
    · simp at hr
    · rename_i hfind
      simp only [writes_ins, mem_singleton, Row.manifestReview.injEq] at hr
      obtain ⟨rfl, rfl, rfl, rfl, rfl⟩ := hr
      exact .inr ⟨rfl, _, _, findManifestReview_eq_some hfind⟩

/-- The manifest a statement refers to. -/
def refersTo : Stmt → Option (RepoKey × ℕ)
  | .createOrUpdateTag repo _ id | .associateManifest repo _ id => some (repo, id)
  | _ => none

/-- No other statement adds a reference. -/
theorem refers_mem_ins {q : Stmt} {env : Env} {r : Row} {repo : RepoKey} {id : ℕ}
    (hr : r ∈ (q.effect env).ins) (hi : manifestTracking.refers r = some (repo, id)) :
    refersTo q = some (repo, id) := by
  have htable := table_mem_inserts hr
  cases r <;> simp [manifestTracking] at hi
  case tag =>
    obtain ⟨rfl, rfl⟩ := hi
    cases q <;> simp [inserts, table] at htable
    simp only [Stmt.effect, Env.createOrUpdateTag] at hr
    split at hr
    · simp only [writes_ins, mem_singleton, Row.tag.injEq] at hr
      obtain ⟨rfl, rfl, rfl⟩ := hr
      rfl
    split at hr
    · simp at hr
    · simp only [writes_ins, mem_cons, not_mem_nil, or_false, Row.tag.injEq] at hr
      rcases hr with ⟨rfl, rfl, rfl⟩ | hr
      · rfl
      · have htab := congrArg table hr
        rw [table_manifestReview] at htab
        cases htab
  case manifestReference =>
    obtain ⟨rfl, rfl⟩ := hi
    cases q <;> simp [inserts, table] at htable
    simp only [Stmt.effect, Env.associateManifest] at hr
    split at hr
    · simp at hr
    · simp only [writes_ins, mem_singleton, Row.manifestReference.injEq] at hr
      obtain ⟨rfl, rfl, rfl⟩ := hr
      rfl

/-! ## The invariant in time -/

/-- A transaction that is about to refer to manifests, since when, and the review records it still
has to lock. -/
def watch : Proc → Option (RepoKey × List ℕ × ℕ × List (ℕ × ℕ))
  | .lock repo g since found => some (repo, g.targets, since, found)
  | .body repo g since | .associate repo g since _ _ | .commit repo g since =>
    some (repo, g.targets, since, [])
  | _ => none

theorem mem_ids_of_mem_targets {g : Guarded} {id : ℕ} (h : id ∈ g.targets) : id ∈ g.ids := by
  cases g with
  | tag | list => exact h
  | untag | delete => exact absurd h not_mem_nil

/-- The session watches nothing, and is no manifest worker with a task. -/
def quiet : Proc → Bool
  | .select _ _ _ | .manifestTask _ _ => false
  | p => (watch p).isNone

theorem quiet_cases {p} (h : quiet p = true) : watch p = none ∧
    (∀ repo g since, p ≠ .select repo g since) ∧
    (∀ repo g since list todo, p ≠ .associate repo g since list todo) ∧
    ∀ task st, p ≠ .manifestTask task st := by
  cases p <;> simp_all [quiet, watch]

structure Timely (L clock : ℕ) (db : Database) (t : ℕ) (σ : Session) : Prop where
  started_le : σ.started ≤ clock
  selecting : ∀ repo g since, σ.proc = .select repo g since → σ.started ≤ since ∧ since ≤ clock
  since_le : ∀ repo ids since found, watch σ.proc = some (repo, ids, since, found) →
    σ.started ≤ since ∧ since ≤ clock
  watching : ∀ repo ids since found, watch σ.proc = some (repo, ids, since, found) →
    clock < since + L → ∀ id ∈ ids, ∀ after count tuple,
      .manifestReview repo id after count tuple ∈ db.db →
      db.Holds t (.manifestReview repo id) ∨ (id, tuple) ∈ found ∨ since + L ≤ after
  reviews : ∀ repo id after count tuple,
    .manifestReview repo id after count tuple ∈ (db.delta t).ins →
    σ.started + 2 * L ≤ after ∨
      ∃ after₀ count₀, .manifestReview repo id after₀ count₀ tuple ∈ db.db ∧ after₀ < σ.started
  refs : ∀ r ∈ (db.delta t).ins, ∀ repo id, manifestTracking.refers r = some (repo, id) →
    ∃ ids since found, watch σ.proc = some (repo, ids, since, found) ∧ id ∈ ids
  todo : ∀ repo g since list todo, σ.proc = .associate repo g since list todo →
    ∀ id ∈ todo, id ∈ g.targets
  due : ∀ task st, σ.proc = .manifestTask task st → task.reviewAfter < σ.started ∧
    ∃ tuple, .manifestReview task.repo task.id task.reviewAfter task.reviewCount tuple ∈ db.db
  unreferred : ∀ task, σ.proc = .manifestTask task .delete →
    ¬ manifestTracking.Referred db.db (task.repo, task.id)
  deleting : ∀ task r, σ.proc = .manifestTask task (.commit r) →
    ∀ repo id d p, .manifest repo id d p ∈ (db.delta t).del →
      (repo, id) = (task.repo, task.id) ∧ ¬ manifestTracking.Referred db.db (repo, id)

section Steps

variable {L clock : ℕ} {db : Database} {t u : ℕ} {σ : Session}

/-- INTERNAL: a quiet session that has staged nothing. -/
theorem Timely.of_quiet {p started deadline} (hle : started ≤ clock)
    (hδ : (db.delta t).ins = []) (hq : quiet p = true) :
    Timely L clock db t ⟨p, started, deadline⟩ := by
  obtain ⟨hwatch, hsel, hassoc, htask⟩ := quiet_cases hq
  exact ⟨hle, fun _ _ _ h => absurd h (hsel _ _ _), by simp [hwatch], by simp [hwatch],
    by simp [hδ], by simp [hδ], fun _ _ _ _ _ h => absurd h (hassoc _ _ _ _ _),
    fun _ _ h => absurd h (htask _ _), fun _ h => absurd h (htask _ _),
    fun _ _ h => absurd h (htask _ _)⟩

/-- A delete without references to lock. -/
theorem Timely.of_delete {repo digest l children started since deadline} (hle : started ≤ since)
    (hle' : since ≤ clock) (hδ : (db.delta t).ins = []) :
    Timely L clock db t ⟨.body repo (.delete digest l children) since, started, deadline⟩ := by
  refine ⟨Nat.le_trans hle hle', by simp, fun _ _ _ _ hw => ?_, fun _ _ _ _ hw => ?_,
    by simp [hδ], by simp [hδ], by simp, by simp, by simp, by simp⟩ <;>
    simp only [watch, Guarded.targets, Option.some.injEq, Prod.mk.injEq] at hw
  · obtain ⟨-, -, rfl, -⟩ := hw
    exact ⟨hle, hle'⟩
  · obtain ⟨-, rfl, -⟩ := hw
    simp

/-- A worker that has staged nothing. -/
theorem Timely.of_task {task st started deadline} (hle : started ≤ clock)
    (hδ : db.delta t = ⟨[], []⟩)
    (hdue : task.reviewAfter < started ∧
      ∃ tuple, .manifestReview task.repo task.id task.reviewAfter task.reviewCount tuple ∈ db.db)
    (hunreferred : st = .delete → ¬ manifestTracking.Referred db.db (task.repo, task.id)) :
    Timely L clock db t ⟨.manifestTask task st, started, deadline⟩ := by
  refine ⟨hle, by simp, by simp [watch], by simp [watch], by simp [hδ], by simp [hδ], by simp,
    fun _ _ hp => ?_, fun _ hp => ?_, by simp [hδ]⟩ <;> cases hp
  · exact hdue
  · exact hunreferred rfl

/-- Time passes. -/
theorem Timely.tick (h : Timely L clock db t σ) {clock'} (hle : clock ≤ clock') :
    Timely L clock' db t σ where
  started_le := Nat.le_trans h.started_le hle
  selecting _ _ _ hp := ⟨(h.selecting _ _ _ hp).1, Nat.le_trans (h.selecting _ _ _ hp).2 hle⟩
  since_le _ _ _ _ hw := ⟨(h.since_le _ _ _ _ hw).1, Nat.le_trans (h.since_le _ _ _ _ hw).2 hle⟩
  watching _ _ _ _ hw hlt := h.watching _ _ _ _ hw (Nat.lt_of_le_of_lt hle hlt)
  reviews := h.reviews
  refs := h.refs
  todo := h.todo
  due := h.due
  unreferred := h.unreferred
  deleting := h.deleting

/-- Others write what is not committed. -/
theorem Timely.untouched {db' : Database} (h : Timely L clock db u σ)
    (hu : Store.Untouched u db db') : Timely L clock db' u σ := by
  refine ⟨h.started_le, h.selecting, h.since_le, fun _ _ _ _ hw hlt id hid a n tu hr => ?_,
    ?_, ?_, h.todo, ?_, ?_, ?_⟩
  · rw [hu.db] at hr
    exact (h.watching _ _ _ _ hw hlt id hid a n tu hr).imp_left (hu.holds _)
  · rw [hu.delta, hu.db]; exact h.reviews
  · rw [hu.delta]; exact h.refs
  · rw [hu.db]; exact h.due
  · rw [hu.db]; exact h.unreferred
  · rw [hu.delta, hu.db]; exact h.deleting

/-- INTERNAL: **why the window works.** If a worker has the record of a manifest, the record was
due, so a transaction that refers to the manifest in time would have locked it. -/
theorem Timely.no_worker {repo ids since id σ' task st} (hs : Sound schema db)
    (ht : Timely L clock db t σ) (hw : watch σ.proc = some (repo, ids, since, [])) (hid : id ∈ ids)
    (hprompt : clock < σ.started + L) (hu : Timely L clock db u σ') (hne : u ≠ t)
    (hp : σ'.proc = .manifestTask task st) (htask : (repo, id) = (task.repo, task.id)) 
    (hheld : db.Holds u (.manifestReview task.repo task.id)) : False := by
  obtain ⟨hsince, -⟩ := ht.since_le _ _ _ _ hw
  obtain ⟨hdue, tuple, hrow⟩ := hu.due _ _ hp
  obtain ⟨rfl, rfl⟩ := Prod.mk.inj htask
  have hlt : clock < since + L := by omega
  have hstarted := hu.started_le
  rcases ht.watching _ _ _ _ hw hlt _ hid _ _ _ hrow with hlock | hfound | hlate
  · exact hne (hs.exclusion t u _ hlock _ hheld)
  · simp at hfound
  · omega

/-- Another session commits. -/
theorem Timely.commit_other (hs : Sound schema db) {σ'}
    (hfits : Fits db u σ'.proc) (ht : Timely L clock db t σ) (hu : Timely L clock db u σ')
    (hne : u ≠ t) (hprompt : clock < σ.started + L)
    (hcommit : ∀ repo ids since found, watch σ.proc = some (repo, ids, since, found) → found = []) :
    Timely L clock (db.commit t) u σ' := by
  have hδ := db.delta_commit_of_ne hne
  -- a worker's manifest gets no new reference
  have spared : ∀ task st repo id, σ'.proc = .manifestTask task st →
      (repo, id) = (task.repo, task.id) → ¬ manifestTracking.Referred db.db (repo, id) →
      ¬ manifestTracking.Referred (db.commit t).db (repo, id) := by
    rintro task st repo id hp htask hno ⟨r, hr, hi⟩
    rcases (Delta.mem_view _ _ _).1 hr with hins | ⟨hdb, -⟩
    · obtain ⟨ids, since, found, hw, hid⟩ := ht.refs r hins repo id hi
      obtain rfl := hcommit _ _ _ _ hw
      exact ht.no_worker hs hw hid hprompt hu hne hp htask (hfits.holds _ _ hp)
    · exact hno ⟨r, hdb, hi⟩
  refine ⟨hu.started_le, hu.selecting, hu.since_le, ?_, ?_, ?_, hu.todo, ?_, ?_, ?_⟩
  · intro repo ids since found hw hlt id hid after count tuple hr
    have hkeep : db.Holds u (.manifestReview repo id) →
        (db.commit t).Holds u (.manifestReview repo id) := fun hheld => by
      simpa [Store.Holds, Store.commit, hne] using hheld
    rcases (Delta.mem_view _ _ _).1 hr with hins | ⟨hdb, -⟩
    · rcases ht.reviews _ _ _ _ _ hins with hlate | ⟨after₀, count₀, hrow, hle⟩
      · have hsince := (hu.since_le _ _ _ _ hw).2
        exact .inr (.inr (by omega))
      · -- a record that a worker moved was due, and keeps its row
        rcases hu.watching _ _ _ _ hw hlt id hid _ _ _ hrow with hlock | hfound | hlate
        · exact .inl (hkeep hlock)
        · exact .inr (.inl hfound)
        · have hstarted := ht.started_le
          omega
    · exact (hu.watching _ _ _ _ hw hlt id hid _ _ _ hdb).imp_left hkeep
  · intro repo id after count tuple hr
    rw [hδ] at hr
    rcases hu.reviews _ _ _ _ _ hr with hlate | ⟨after₀, count₀, hrow, hle⟩
    · exact .inl hlate
    · have hheld := hs.written u _ (.inl hr) (.manifestReview repo id) (by simp [schema, rowKeys])
      exact .inr ⟨after₀, count₀,
        (hs.mem_commit_iff hne hheld (by simp [schema, rowKeys])).2 hrow, hle⟩
  · rw [hδ]; exact hu.refs
  · intro task st hp
    obtain ⟨hdue, tuple, hrow⟩ := hu.due task st hp
    exact ⟨hdue, tuple, (hs.mem_commit_iff hne (hfits.holds _ _ hp)
      (by simp [schema, rowKeys])).2 hrow⟩
  · exact fun task hp => spared task _ _ _ hp rfl (hu.unreferred task hp)
  · intro task r hp repo id d p hr
    rw [hδ] at hr
    obtain ⟨htask, hno⟩ := hu.deleting task r hp repo id d p hr
    exact ⟨htask, spared task _ _ _ hp htask hno⟩

end Steps

section OwnSteps

variable {c : Settings} {L : ℕ} {s : State} {t : ℕ} {p p' : Proc} {started deadline deadline' : ℕ}

theorem Timely.carry (h : Timely L s.clock s.db t ⟨p, started, deadline⟩) (hwatch : watch p = none)
    (hq : quiet p' = true) : Timely L s.clock s.db t ⟨p', started, deadline'⟩ := by
  obtain ⟨hwatch', hsel, hassoc, htask⟩ := quiet_cases hq
  refine ⟨h.started_le, fun _ _ _ hp => absurd hp (hsel _ _ _), by simp [hwatch'],
    by simp [hwatch'], h.reviews, fun r hr repo id hi => ?_,
    fun _ _ _ _ _ hp => absurd hp (hassoc _ _ _ _ _), fun _ _ hp => absurd hp (htask _ _),
    fun _ hp => absurd hp (htask _ _), fun _ _ hp => absurd hp (htask _ _)⟩
  obtain ⟨_, _, _, hw, -⟩ := h.refs r hr repo id hi
  simp [hwatch] at hw

/-- INTERNAL: moves without a statement, with the snapshot of `SELECT … FOR UPDATE`: what it does
not show is not due within the window. -/
theorem Timely.hop (hwin : L ≤ reviewWindow) (hfits : Fits s.db t p)
    (h : Timely L s.clock s.db t ⟨p, started, deadline⟩) (hop : Hops s t p p') :
    Timely L s.clock s.db t ⟨p', started, deadline'⟩ := by
  have hnil : clean p = true → (s.db.delta t).ins = [] := fun hc => by rw [hfits.staged hc]
  cases hop with
  | now repo g =>
    refine ⟨h.started_le, fun _ _ _ hp => ?_, by simp [watch], by simp [watch],
      by simp [hnil rfl], by simp [hnil rfl], by simp, by simp, by simp, by simp⟩
    obtain ⟨-, -, rfl⟩ := Proc.select.inj hp
    exact ⟨h.started_le, Nat.le_refl _⟩
  | unreferenced repo digest id => exact .of_delete h.started_le (Nat.le_refl _) (hnil rfl)
  | select repo g since =>
    obtain ⟨hle, hle'⟩ := h.selecting _ _ _ rfl
    refine ⟨h.started_le, by simp, fun _ _ _ _ hw => ?_, fun _ _ _ _ hw => ?_,
      by simp [hnil rfl], by simp [hnil rfl], by simp, by simp, by simp, by simp⟩ <;>
      simp only [watch, Option.some.injEq, Prod.mk.injEq] at hw
    · obtain ⟨-, -, rfl, -⟩ := hw
      exact ⟨hle, hle'⟩
    · obtain ⟨rfl, rfl, rfl, rfl⟩ := hw
      intro _ id hid after count tuple hr
      have hids := mem_ids_of_mem_targets hid
      by_cases hsoon : after < since + reviewWindow
      · refine .inr (.inl (mem_filterMap.2 ⟨_, (hfits.view_eq rfl).symm ▸ hr, ?_⟩))
        simp [hids, hsoon]
      · exact .inr (.inr (by omega))
  | associated repo g since list =>
    exact ⟨h.started_le, by simp, h.since_le, h.watching, h.reviews, h.refs, by simp, by simp,
      by simp, by simp⟩
  | manifestReferenced task _ =>
    exact .of_task h.started_le (hfits.staged rfl) (h.due _ _ rfl) (by simp)
  | manifestDangling task hno =>
    refine .of_task h.started_le (hfits.staged rfl) (h.due _ _ rfl) fun _ => ?_
    rw [← manifestReferenced_iff, ← hfits.view_eq rfl, hno]
    simp
  | _ => exact h.carry rfl rfl

theorem Timely.begin (hfits : Fits s.db t p) (hb : Begins s p p') :
    Timely L s.clock s.db t ⟨p', s.clock, deadline⟩ := by
  have hnil : clean p = true → (s.db.delta t).ins = [] := fun hc => by rw [hfits.staged hc]
  cases hb with
  | delete repo digest children => exact .of_delete (Nat.le_refl _) (Nat.le_refl _) (hnil rfl)
  | _ => exact .of_quiet (Nat.le_refl _) (hnil rfl) rfl

variable {q : Stmt} (hdelay : ∀ e now, now + 2 * L ≤ c.gcReviewAfter now e)
  (h : Timely L s.clock s.db t ⟨p, (s.sess t).started, deadline⟩)

include hdelay h in
theorem reviews_staged
    (hpost : ∀ repo id after count, q = .postponeManifestReview repo id after count →
      ∀ a n tuple, .manifestReview repo id a n tuple ∈ s.db.view t →
      ∃ after₀ count₀, .manifestReview repo id after₀ count₀ tuple ∈ s.db.db ∧
      after₀ < (s.sess t).started) :
    ∀ repo id after count tuple, .manifestReview repo id after count tuple ∈
        ((s.db.staged schema t (q.effect (envOf c s t))).delta t).ins →
      (s.sess t).started + 2 * L ≤ after ∨
        ∃ after₀ count₀, .manifestReview repo id after₀ count₀ tuple ∈ s.db.db ∧
          after₀ < (s.sess t).started := by
  intro repo id after count tuple hr
  rw [Store.delta_staged_self, Delta.mem_andThen_ins] at hr
  rcases hr with hr | ⟨hr, -⟩
  · rcases review_mem_ins hr with ⟨e, rfl⟩ | ⟨hq, a, n, hrow⟩
    · exact .inl (hdelay e _)
    · exact .inr (hpost _ _ _ _ hq a n tuple hrow)
  · exact h.reviews _ _ _ _ _ hr

theorem refs_staged (h : Timely L s.clock s.db t ⟨p, started, deadline⟩)
    (hnew : ∀ repo id, refersTo q = some (repo, id) →
      ∃ ids since found, watch p' = some (repo, ids, since, found) ∧ id ∈ ids)
    (hold : (s.db.delta t).ins = [] ∨ watch p' = watch p) :
    ∀ r ∈ ((s.db.staged schema t (q.effect (envOf c s t))).delta t).ins, ∀ repo id,
      manifestTracking.refers r = some (repo, id) →
      ∃ ids since found, watch p' = some (repo, ids, since, found) ∧ id ∈ ids := by
  intro r hr repo id hi
  rw [Store.delta_staged_self, Delta.mem_andThen_ins] at hr
  rcases hr with hr | ⟨hr, -⟩
  · exact hnew repo id (refers_mem_ins hr hi)
  · rcases hold with hnil | heq
    · simp [hnil] at hr
    · rw [heq]; exact h.refs r hr repo id hi

include hdelay h in
theorem Timely.exec_quiet
    (hpost : ∀ repo id after count, q ≠ .postponeManifestReview repo id after count)
    (hrefers : refersTo q = none) (hold : (s.db.delta t).ins = [] ∨ watch p' = watch p)
    (hq : quiet p' = true) :
    Timely L s.clock (s.db.staged schema t (q.effect (envOf c s t))) t
      ⟨p', (s.sess t).started, deadline'⟩ := by
  obtain ⟨hwatch', hsel, hassoc, htask⟩ := quiet_cases hq
  refine ⟨h.started_le, fun _ _ _ hp => absurd hp (hsel _ _ _), by simp [hwatch'],
    by simp [hwatch'], reviews_staged hdelay h fun _ _ _ _ hq => absurd hq (hpost _ _ _ _),
    refs_staged h (by simp [hrefers]) hold, fun _ _ _ _ _ hp => absurd hp (hassoc _ _ _ _ _),
    fun _ _ hp => absurd hp (htask _ _), fun _ hp => absurd hp (htask _ _),
    fun _ _ hp => absurd hp (htask _ _)⟩

include hdelay h in
/-- INTERNAL: a session that watches manifests runs a statement of its transaction and goes on
watching them. -/
theorem Timely.exec_watching
    (hpost : ∀ repo id after count, q ≠ .postponeManifestReview repo id after count)
    (hwatch : watch p' = watch p)
    (hnew : ∀ repo id, refersTo q = some (repo, id) →
      ∃ ids since found, watch p = some (repo, ids, since, found) ∧ id ∈ ids)
    (htodo : ∀ repo g since list todo, p' = .associate repo g since list todo →
      ∀ id ∈ todo, id ∈ g.targets)
    (hsel : ∀ repo g since, p' ≠ .select repo g since)
    (htask : ∀ task st, p' ≠ .manifestTask task st) :
    Timely L s.clock (s.db.staged schema t (q.effect (envOf c s t))) t
      ⟨p', (s.sess t).started, deadline'⟩ where
  started_le := h.started_le
  selecting _ _ _ hp := absurd hp (hsel _ _ _)
  since_le _ _ _ _ hw := h.since_le _ _ _ _ (hwatch ▸ hw)
  watching _ _ _ _ hw hlt id hid a n tu hr :=
    (h.watching _ _ _ _ (hwatch ▸ hw) hlt id hid a n tu hr).imp_left Store.mem_staged_locks
  reviews := reviews_staged hdelay h fun _ _ _ _ hq => absurd hq (hpost _ _ _ _)
  refs := refs_staged h (fun repo id hq => hwatch ▸ hnew repo id hq) (.inr hwatch)
  todo := htodo
  due _ _ hp := absurd hp (htask _ _)
  unreferred _ hp := absurd hp (htask _ _)
  deleting _ _ hp := absurd hp (htask _ _)

/-- A session has locked the reviews. -/
theorem Timely.exec_lock (hwin : L ≤ reviewWindow) {repo g since found} (hfits : Fits s.db t
    (.lock repo g since found))
    (h : Timely L s.clock s.db t ⟨.lock repo g since found, (s.sess t).started, deadline⟩) :
    Timely L s.clock (s.db.staged schema t
      ((Stmt.lockManifestReviews repo (since + reviewWindow) found).effect (envOf c s t))) t
      ⟨.body repo g since, (s.sess t).started, deadline'⟩ := by
  have hδ := hfits.staged rfl
  have hview : s.db.view t = s.db.db := by simp [Store.view, hδ]
  have hδ' : ((s.db.staged schema t
      ((Stmt.lockManifestReviews repo (since + reviewWindow) found).effect
        (envOf c s t))).delta t).ins = [] := by
    simp [Stmt.effect, Env.lockManifestReviews, hδ, Delta.andThen]
  refine ⟨h.started_le, by simp, fun _ _ _ _ hw => ?_, fun _ _ _ _ hw => ?_,
    by simp only [hδ']; simp, by simp only [hδ']; simp, by simp, by simp, by simp, by simp⟩ <;>
    simp only [watch, Option.some.injEq, Prod.mk.injEq] at hw <;> obtain ⟨rfl, rfl, rfl, rfl⟩ := hw
  · exact h.since_le _ _ _ _ rfl
  · intro hlt id hid after count tuple hr
    rcases h.watching _ _ _ _ rfl hlt id hid after count tuple hr with hheld | hfound | hlate
    · exact .inl (Store.mem_staged_locks hheld)
    · by_cases hsoon : after < since + reviewWindow
      · refine .inl (Store.holds_staged_lock _ _ ?_)
        simp only [Stmt.effect, Env.lockManifestReviews, locks_lock, mem_filterMap, envOf_view]
        exact ⟨_, hview.symm ▸ hr, by simp [hfound, hsoon]⟩
      · exact .inr (.inr (by omega))
    · exact .inr (.inr hlate)

include hdelay in
/-- INTERNAL: a worker removes the manifest of its task, to which it has seen no reference, or
writes a review it has moved on. -/
theorem Timely.exec_task {task st r} (hs : Sound schema s.db)
    (hfits : Fits s.db t (.manifestTask task st))
    (h : Timely L s.clock s.db t ⟨.manifestTask task st, (s.sess t).started, deadline⟩)
    (hclean : clean (.manifestTask task st) = true)
    (hpost : ∀ repo id after count, q = .postponeManifestReview repo id after count →
      repo = task.repo ∧ id = task.id)
    (hrefers : refersTo q = none)
    (hdel : ∀ repo id d p, .manifest repo id d p ∈ (q.effect (envOf c s t)).del →
      (repo, id) = (task.repo, task.id) ∧ st = .delete) :
    Timely L s.clock (s.db.staged schema t (q.effect (envOf c s t))) t
      ⟨.manifestTask task (.commit r), (s.sess t).started, deadline'⟩ where
  started_le := h.started_le
  selecting _ _ _ hp := by simp at hp
  since_le _ _ _ _ hw := by simp [watch] at hw
  watching _ _ _ _ hw := by simp [watch] at hw
  reviews := by
    refine reviews_staged hdelay h fun repo id after count hq a n tuple hrow => ?_
    obtain ⟨rfl, rfl⟩ := hpost _ _ _ _ hq
    obtain ⟨hlt, tuple', hdue⟩ := h.due _ _ rfl
    rw [hfits.view_eq hclean] at hrow
    -- the record is the one the worker read
    have heq := hs.base.eq_of_key hrow hdue (mem_singleton.2 rfl) (mem_singleton.2 rfl)
    obtain ⟨-, -, rfl, rfl, rfl⟩ := Row.manifestReview.inj heq
    exact ⟨_, _, hrow, hlt⟩
  refs := refs_staged h (by simp [hrefers]) (.inl (by rw [hfits.staged hclean]))
  todo _ _ _ _ _ hp := by simp at hp
  due _ _ hp := by
    obtain ⟨rfl, -⟩ := Proc.manifestTask.inj hp
    exact h.due _ _ rfl
  unreferred _ hp := by simp at hp
  deleting _ _ hp repo id d p hr := by
    obtain ⟨rfl, -⟩ := Proc.manifestTask.inj hp
    rw [Store.delta_staged_self, Delta.mem_andThen_del, hfits.staged hclean] at hr
    obtain ⟨htask, rfl⟩ := hdel _ _ _ _ (hr.resolve_left not_mem_nil)
    exact ⟨htask, htask ▸ h.unreferred _ rfl⟩

include hdelay h in
/-- INTERNAL: a statement. -/
theorem Timely.exec {next : Bool → Proc} {b} (hwin : L ≤ reviewWindow) (hs : Sound schema s.db)
    (hfits : Fits s.db t p) (hx : Execs s t p q next) :
    Timely L s.clock (s.db.staged schema t (q.effect (envOf c s t))) t
      ⟨next b, (s.sess t).started, deadline'⟩ := by
  have hnil : clean p = true → (s.db.delta t).ins = [] := fun hc => by rw [hfits.staged hc]
  cases hx with
  | lock repo g since found => exact h.exec_lock hwin hfits
  | tag repo name id since =>
    refine h.exec_watching hdelay (by simp) rfl (fun repo' id' hq => ?_) (by simp) (by simp)
      (by simp)
    cases hq
    exact ⟨_, _, _, rfl, mem_singleton.2 rfl⟩
  | untag | delete =>
    cases b
    · exact h.exec_quiet hdelay (by simp) rfl (.inl (hnil rfl)) rfl
    · exact h.exec_watching hdelay (by simp) rfl (by simp [refersTo]) (by simp) (by simp) (by simp)
  | list repo digest members ids since =>
    refine h.exec_watching hdelay (by simp) rfl (by simp [refersTo]) ?_ (by simp) (by simp)
    intro _ _ _ _ _ hp id hid
    obtain ⟨-, rfl, -, -, rfl⟩ := Proc.associate.inj hp
    exact hid
  | associate repo g since list id todo _ =>
    refine h.exec_watching hdelay (by simp) rfl (fun repo' id' hq => ?_) ?_ (by simp) (by simp)
    · cases hq
      exact ⟨_, _, _, rfl, h.todo _ _ _ _ _ rfl _ mem_cons_self⟩
    · intro _ _ _ _ _ hp id hid
      obtain ⟨-, rfl, -, -, rfl⟩ := Proc.associate.inj hp
      exact h.todo _ _ _ _ _ rfl _ (mem_cons_of_mem _ hid)
  | manifestNext repo id after count tuple hmem hdue =>
    refine .of_task h.started_le ?_ ⟨hdue, tuple, hfits.view_eq rfl ▸ hmem⟩ (by simp)
    simpa [Stmt.effect, locks] using hfits.staged rfl
  | manifestDelete task =>
    refine h.exec_task hdelay hs hfits rfl (by simp) rfl fun repo id d p hr => ⟨?_, rfl⟩
    have hcas := (mem_deleteManifest_del.1 hr).2
    simp [cascadesFrom, isManifestReviewOf, isBlobReviewOf] at hcas
    rw [hcas.1, hcas.2]
  | manifestForget task =>
    cases b
    · exact h.exec_quiet hdelay (by simp) rfl (.inl (hnil rfl)) rfl
    · refine h.exec_task hdelay hs hfits rfl (by simp) rfl fun repo id d p hr => ?_
      have htable := table_mem_deletes hr
      simp [deletes, table] at htable
  | manifestPostpone task =>
    let q : Stmt := .postponeManifestReview task.repo task.id
      (postponed task.reviewAfter task.reviewCount) (task.reviewCount + 1)
    have hmoved : Timely L s.clock (s.db.staged schema t (q.effect (envOf c s t))) t
        ⟨.manifestTask task (.commit (.error .reviewFailed)), (s.sess t).started, deadline'⟩ := by
      refine h.exec_task hdelay hs hfits rfl (fun _ _ _ _ hq => ?_) rfl fun repo id d p hr => ?_
      · obtain ⟨rfl, rfl, -, -⟩ := Stmt.postponeManifestReview.inj hq
        exact ⟨rfl, rfl⟩
      · have htable := table_mem_deletes hr
        simp [q, deletes, table] at htable
    cases b
    · exact ⟨h.started_le, by simp, by simp [watch], by simp [watch], hmoved.reviews,
        refs_staged h (by simp [refersTo]) (.inl (hnil rfl)), by simp, by simp, by simp, by simp⟩
    · exact hmoved
  | uploadCreate repo digest =>
    exact h.exec_quiet hdelay (by simp) rfl (.inl (hnil rfl)) (by cases b <;> rfl)
  | blobForget task | blobPostpone task =>
    cases b <;> exact h.exec_quiet hdelay (by simp) rfl (.inr rfl) rfl
  | _ =>
    exact h.exec_quiet hdelay (by simp) rfl (.inr rfl) rfl

theorem Timely.aside (hfits : Fits s.db t p) (h : Timely L s.clock s.db t ⟨p, started, deadline⟩)
    (ha : Aside p p') : Timely L s.clock s.db t ⟨p', started, deadline⟩ := by
  cases ha with
  | manifestReviewFails task =>
    exact .of_task h.started_le (hfits.staged rfl) (h.due _ _ rfl) (by simp)
  | _ => exact h.carry rfl rfl

end OwnSteps

/-! ## Every run -/

structure InTime (L : ℕ) (s : State) : Prop where
  integrity : Integrity s
  timely : ∀ t, Timely L s.clock s.db t (s.sess t)

/-- INTERNAL: every prompt step is in time. -/
theorem InTime.step {c L s s' a} (hwin : L ≤ reviewWindow)
    (hdelay : ∀ e now, now + 2 * L ≤ c.gcReviewAfter now e) (h : InTime L s)
    (hok : Prompt c L s a) (hs : Steps c s a s') : InTime L s' := by
  refine ⟨h.integrity.step hs, ?_⟩
  have hsound := h.integrity.healthy.sound
  apply hs.sessions (P := fun clock _ db t σ => Timely L clock db t σ) h.timely
  case tick => exact fun d t => (h.timely t).tick (Nat.le_add_right _ _)
  case start =>
    intro t call hfree
    refine .of_quiet (Nat.le_refl _) ?_ (by cases call <;> rfl)
    rw [(h.integrity.fits t).staged (clean_of_free hfree)]
  case hop => exact fun t _ _ hop => (h.timely t).hop hwin (h.integrity.fits t) hop
  case begins => exact fun t _ hb => .begin (h.integrity.fits t) hb
  case exec =>
    intro t q next hx
    exact ⟨(h.timely t).exec hdelay hwin hsound (h.integrity.fits t) hx,
      fun u hu => (h.timely u).untouched (.staged hu)⟩
  case commit =>
    intro t pick p ha hreq
    subst ha
    have hcommits := commits_of_request hreq
    have hdone : ∀ repo ids since found,
        watch (s.sess t).proc = some (repo, ids, since, found) → found = [] := by
      intro repo ids since found hw
      generalize (s.sess t).proc = p₀ at hcommits hw
      cases hcommits <;> simp [watch] at hw
      exact hw.2.2.2
    have hprompt : s.clock < (s.sess t).started + L := hok (by rw [hreq]; rfl)
    refine ⟨?_, fun u hu => Timely.commit_other hsound (h.integrity.fits u) (h.timely t)
      (h.timely u) hu hprompt hdone⟩
    generalize (s.sess t).proc = p₀ at hcommits
    cases hcommits <;> exact .of_quiet (h.timely t).started_le (by simp [Store.commit]) rfl
  case quit =>
    intro t r
    exact ⟨.of_quiet (h.timely t).started_le (by simp [Store.rollback]) rfl,
      fun u hu => (h.timely u).untouched (.rollback hu)⟩
  case aside => exact fun t _ ha => (h.timely t).aside (h.integrity.fits t) ha

theorem InTime.init (L : ℕ) : InTime L init := ⟨.init, fun _ => .of_quiet (Nat.le_refl _) rfl rfl⟩

theorem inTime_of_reach {c L s} (hwin : L ≤ reviewWindow)
    (hdelay : ∀ e, 2 * L ≤ c.reviewDelay e) (h : Reach (step c) (Prompt c L) init s) : InTime L s :=
  h.invariant (.init L) fun _ _ _ _ hi hok hs =>
    hi.step hwin (fun e now => Nat.add_le_add_left (hdelay e) now) hok (steps_of_step hs)

end ContainerRegistry.Analysis
