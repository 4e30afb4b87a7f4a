import ContainerRegistry.Analysis.ReviewWindow

/-!
# Manifest garbage collection

An unreferenced manifest has a review record, whatever the timing. No worker removes a manifest in
use if transactions commit promptly, but it may with the review delay off (`gc.reviewafter: -1`).
-/

namespace ContainerRegistry.Analysis

open Library Model

variable {repo : RepoKey}

theorem manifestReferenced_eq_false {view id} :
    manifestReferenced view repo id = false ↔
      (∀ name, .tag repo name id ∉ view) ∧ ∀ parent, .manifestReference repo parent id ∉ view := by
  rw [← Bool.not_eq_true, manifestReferenced_iff]
  constructor
  · exact fun h => ⟨fun _ hr => h ⟨_, hr, rfl⟩, fun _ hr => h ⟨_, hr, rfl⟩⟩
  · rintro ⟨htag, hlist⟩ ⟨r, hr, hi⟩
    cases r <;> simp [manifestTracking] at hi <;> obtain ⟨rfl, rfl⟩ := hi
    · exact htag _ hr
    · exact hlist _ hr

/-- **No untracked dangling manifest.** In every reachable state an unreferenced manifest has a
record in `gc_manifest_review_queue`. manifestworker.go:74-138 -/
theorem unreferenced_manifest_queued {c : Settings} {s : State} (h : Reachable c s)
    {repo : RepoKey} {id : ℕ} {digest : Digest} {payload : Payload}
    (hm : .manifest repo id digest payload ∈ s.db.db) (htag : ∀ name, .tag repo name id ∉ s.db.db)
    (hlist : ∀ parent, .manifestReference repo parent id ∉ s.db.db) :
    ∃ after count tuple, .manifestReview repo id after count tuple ∈ s.db.db := by
  have hfree := manifestReferenced_eq_false.2 ⟨htag, hlist⟩
  rcases (integrity_of_reach h).healthy.tracked.manifests (repo, id) ⟨_, hm, rfl⟩ with
    href | ⟨r, hr, hi⟩
  · simp [manifestReferenced_iff.2 href] at hfree
  · cases r <;> simp [manifestTracking] at hi
    obtain ⟨rfl, rfl⟩ := hi
    exact ⟨_, _, _, hr⟩

/-- A worker has taken the tagged image off the queue; once its only tag is deleted it is on the
queue again. -/
theorem untagged_manifest_queued :
    ∃ s, Reachable immediate s ∧
      .manifest Sample.repo 2 Sample.image.digest (.image Sample.config []) ∈ s.db.db ∧
      ∃ after count tuple, .manifestReview Sample.repo 2 after count tuple ∈ s.db.db := by
  obtain ⟨s, hs, hm, hfree⟩ : ∃ s, Reachable immediate s ∧
      .manifest Sample.repo 2 Sample.image.digest (.image Sample.config []) ∈ s.db.db ∧
      manifestReferenced s.db.db Sample.repo 2 = false :=
    exists_reach
      (Sample.push ++ .tick 1 :: Sample.review 3 ++ calls 1 (.deleteTag Sample.repo 1) 7)
      (by decide +kernel)
  obtain ⟨htag, hlist⟩ := manifestReferenced_eq_false.1 hfree
  exact ⟨s, hs, hm, unreferenced_manifest_queued hs hm htag hlist⟩

/-! ## Safety -/

structure ManifestsSafe (c : Settings) (s : State) : Prop where
  /-- No step of a worker removes a manifest that a committed tag or list refers to. -/
  kept : ∀ t task st pick s', (s.sess t).proc = .manifestTask task st →
    step c s (.go t pick) = some s' →
    ∀ repo id digest payload, .manifest repo id digest payload ∈ s.db.db →
      (∃ name, .tag repo name id ∈ s.db.db) ∨ (∃ list, .manifestReference repo list id ∈ s.db.db) →
      .manifest repo id digest payload ∈ s'.db.db
  tags : ∀ repo name id, .tag repo name id ∈ s.db.db →
    ∃ digest payload, .manifest repo id digest payload ∈ s.db.db
  lists : ∀ repo list id, .manifestReference repo list id ∈ s.db.db →
    ∃ digest payload, .manifest repo id digest payload ∈ s.db.db
  /-- Who comes to write a tag and finds the manifest gone, fails. -/
  tagLoses : ∀ t repo name id since pick s', (s.sess t).proc = .body repo (.tag name id) since →
    manifestExists (s.db.view t) repo id = false → step c s (.go t pick) = some s' →
    (s'.sess t).proc = .done (.error .manifestNotFound) ∧ s'.db.db = s.db.db
  /-- Who comes to write an entry of a list and finds the manifest gone, fails. -/
  listLoses : ∀ t repo g since list id todo pick s',
    (s.sess t).proc = .associate repo g since list (id :: todo) →
    manifestExists (s.db.view t) repo id = false → step c s (.go t pick) = some s' →
    (∃ e, (s'.sess t).proc = .done (.error e)) ∧ s'.db.db = s.db.db

variable {c : Settings}

/-- No reference to a missing manifest is written. -/
theorem write_ne_done {s t q r id}
    (hq : Table.manifests ∉ inserts q) (hgone : manifestExists (s.db.view t) repo id = false)
    (hr : r ∈ (q.effect (envOf c s t)).toDelta.view (s.db.view t))
    (hk : .manifest repo id ∈ rowParents r) (db : Database) :
    s.db.write schema t (q.effect (envOf c s t)) ≠ .done db := by
  intro hw
  obtain ⟨-, hc, -⟩ := Store.write_eq_done hw
  obtain ⟨p, hp, hkp⟩ := hc.2 r hr _ hk
  cases p <;> simp [schema, rowKeys] at hkp
  case manifest =>
    obtain ⟨rfl, rfl⟩ := hkp
    rcases (Delta.mem_view _ _ _).1 hp with hins | ⟨hview, -⟩
    · exact hq (table_mem_inserts hins)
    · simp [manifestExists_iff.2 ⟨_, _, hview⟩] at hgone

variable {pick : Option Key}

/-- INTERNAL: a session whose statement cannot succeed ends with its error, and nothing is
committed. -/
theorem step_of_ne_done {s s' t q} {next : Bool → Proc} {v}
    (hreq : request c s t pick = .exec q next v)
    (hno : ∀ db, s.db.write schema t (q.effect (envOf c s t)) ≠ .done db)
    (hs : step c s (.go t pick) = some s') :
    (s'.sess t).proc = .done (.error v) ∧ s'.db.db = s.db.db := by
  cases steps_of_step hs with
  | violation _ _ q' next' v' hreq' hw =>
    rw [hreq] at hreq'
    cases hreq'
    exact ⟨by simp [State.jump], rfl⟩
  | exec _ _ q' next' v' db hreq' hw =>
    rw [hreq] at hreq'
    cases hreq'
    exact absurd hw (hno db)
  | _ => simp_all

theorem step_of_finish {s s' t r} (hreq : request c s t pick = .finish r)
    (hs : step c s (.go t pick) = some s') : (s'.sess t).proc = .done r ∧ s'.db.db = s.db.db := by
  cases steps_of_step hs with
  | finish _ _ r' hreq' =>
    rw [hreq] at hreq'
    cases hreq'
    exact ⟨by simp [State.jump], rfl⟩
  | _ => simp_all

theorem tag_mem_view (env : Env) (repo : RepoKey) (name : TagName) (id : ℕ) :
    .tag repo name id ∈ (env.createOrUpdateTag repo name id).toDelta.view env.view := by
  unfold Env.createOrUpdateTag
  split
  · simp [writes]
  · split
    next hfind hid =>
      subst hid
      simpa [locks] using findTagByName_eq_some hfind
    next => simp [writes]

theorem reference_mem_view (env : Env) (repo : RepoKey) (list id : ℕ) :
    .manifestReference repo list id ∈
      (env.associateManifest repo list id).toDelta.view env.view := by
  unfold Env.associateManifest
  split
  next hmem => simpa [waits] using hmem
  next => simp [writes]

/-- A worker leaves a manifest in use alone. -/
theorem manifest_kept {L s s' t task st}
    (h : InTime L s) (hp : (s.sess t).proc = .manifestTask task st)
    (hs : step c s (.go t pick) = some s') {id digest payload}
    (hm : .manifest repo id digest payload ∈ s.db.db)
    (href : manifestTracking.Referred s.db.db (repo, id)) :
    .manifest repo id digest payload ∈ s'.db.db := by
  rcases (steps_of_step hs).committed with heq | ⟨t', pick', p, ha, hreq, hdb⟩
  · rwa [heq]
  obtain ⟨rfl, rfl⟩ := Action.go.inj ha
  rw [hdb]
  refine (Delta.mem_view _ _ _).2 (.inr ⟨hm, fun hdel => ?_⟩)
  have hcommits := commits_of_request hreq
  rw [hp] at hcommits
  cases hcommits with
  | manifestTask _ r => exact ((h.timely t).deleting task r hp _ _ _ _ hdel).2 href

/-- **No manifest in use is collected** if the transactions commit within `L` of their start, where
`L` is at most the review window and every review delay is at least `2 * L`.
manifestworker.go:74-138, handlers/manifests.go:677-734, 901-1008 -/
theorem manifests_safe {c : Settings} {L : ℕ} {s : State} (hwin : L ≤ reviewWindow)
    (hdelay : ∀ e, 2 * L ≤ c.reviewDelay e) (h : Reach (step c) (Prompt c L) init s) :
    ManifestsSafe c s := by
  have hin := inTime_of_reach hwin hdelay h
  have hc : Consistent schema s.db.db := hin.integrity.healthy.sound.base
  constructor
  · intro t task st pick s' hp hs repo id digest payload hm href
    refine manifest_kept hin hp hs hm ?_
    rcases href with ⟨name, hr⟩ | ⟨list, hr⟩ <;> exact ⟨_, hr, rfl⟩
  · exact fun _ _ _ hr => manifest_of_parent hc hr (by simp [rowParents])
  · exact fun _ _ _ hr => manifest_of_parent hc hr (by simp [rowParents])
  · intro t repo name id since pick s' hp hgone hs
    have hreq : request c s t pick = .exec (.createOrUpdateTag repo name id)
        (fun _ => .commit repo (.tag name id) since) .manifestNotFound := by
      simp only [request, hp, Guarded.body]
    exact step_of_ne_done hreq (write_ne_done (by simp [inserts]) hgone
      (tag_mem_view (envOf c s t) ..) (by simp [rowParents])) hs
  · intro t repo g since list id todo pick s' hp hgone hs
    by_cases hself : list = id
    · have hreq : request c s t pick = .finish (.error .selfReference) := by
        simp only [request, hp, hself, if_true]
      obtain ⟨hproc, hdb⟩ := step_of_finish hreq hs
      exact ⟨⟨_, hproc⟩, hdb⟩
    · have hreq : request c s t pick = .exec (.associateManifest repo list id)
          (fun _ => .associate repo g since list todo) .refManifestNotFound := by
        simp only [request, hp, hself, if_false]
      obtain ⟨hproc, hdb⟩ := step_of_ne_done hreq (write_ne_done (by simp [inserts]) hgone
        (reference_mem_view (envOf c s t) ..) (by simp [rowParents])) hs
      exact ⟨⟨_, hproc⟩, hdb⟩

/-- With the settings as installed, and everyone committing within the hour, a worker holds the
review of the tagged image a day later. -/
theorem manifests_safe_standard :
    ∃ s, Reach (step standard) (Prompt standard reviewWindow) init s ∧
      (s.sess 3).proc = .manifestTask ⟨Sample.repo, 2, day, 0⟩ .dangling ∧
      .tag Sample.repo 1 2 ∈ s.db.db ∧ ManifestsSafe standard s := by
  obtain ⟨s, hs, hp, htag⟩ : ∃ s, Reach (step standard) (Prompt standard reviewWindow) init s ∧
      (s.sess 3).proc = .manifestTask ⟨Sample.repo, 2, day, 0⟩ .dangling ∧
      .tag Sample.repo 1 2 ∈ s.db.db :=
    exists_reach (Sample.push ++ .tick (day + 1) :: Sample.review 0) (by decide +kernel)
  have hdelay : ∀ e, 2 * reviewWindow ≤ standard.reviewDelay e := fun e => by
    rw [reviewDelay_standard]; decide
  exact ⟨s, hs, hp, htag, manifests_safe (Nat.le_refl _) hdelay hs⟩

/-- **With the review delay turned off a tagged manifest is lost.** Session 1 sets out to tag it as
`2`, session 2 deletes the tag `1`, the worker finds the image dangling, session 1 commits, and the
worker deletes the image. -/
theorem tagged_manifest_lost :
    ∃ s s', Reachable immediate s ∧
      (s.sess 3).proc = .manifestTask ⟨Sample.repo, 2, 1, 0⟩ (.commit .ok) ∧
      (s.sess 1).proc = .done .ok ∧
      step immediate s (.go 3 none) = some s' ∧
      .tag Sample.repo 2 2 ∈ s.db.db ∧
      .manifest Sample.repo 2 Sample.image.digest (.image Sample.config []) ∈ s.db.db ∧
      .manifest Sample.repo 2 Sample.image.digest (.image Sample.config []) ∉ s'.db.db := by
  obtain ⟨s, hs, hp, hdone, htag, hm, hlost⟩ : ∃ s, Reachable immediate s ∧
      (s.sess 3).proc = .manifestTask ⟨Sample.repo, 2, 1, 0⟩ (.commit .ok) ∧
      (s.sess 1).proc = .done .ok ∧ .tag Sample.repo 2 2 ∈ s.db.db ∧
      .manifest Sample.repo 2 Sample.image.digest (.image Sample.config []) ∈ s.db.db ∧
      (step immediate s (.go 3 none)).any (fun s' =>
        .manifest Sample.repo 2 Sample.image.digest (.image Sample.config []) ∉ s'.db.db) :=
    exists_reach
      (Sample.push ++ .tick 1 :: Sample.review 3 ++
        calls 1 (.tagManifest Sample.repo 2 Sample.image.digest) 6 ++
        calls 2 (.deleteTag Sample.repo 1) 7 ++ .tick 1 :: Sample.review 1 ++ gos 1 1 ++ gos 3 1)
      (by decide +kernel)
  obtain ⟨s', hstep, hlost⟩ := (Option.any_eq_true ..).1 hlost
  exact ⟨s, s', hs, hp, hdone, hstep, htag, hm, by simpa using hlost⟩

end ContainerRegistry.Analysis
