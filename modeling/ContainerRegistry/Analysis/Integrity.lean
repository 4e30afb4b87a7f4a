import ContainerRegistry.Library.Runs
import ContainerRegistry.Analysis.Trackings
import ContainerRegistry.Analysis.Steps

/-!
# What every interleaving preserves

`Healthy` is about the database and its open transactions, `Fits` about what a session knows at its
program point, without assumptions on timing. Between the check that an item is referenced and the
removal of its task, whoever removes the last reference waits for the lock of the worker.
-/

namespace ContainerRegistry.Analysis

open Library Model List

/-! ## The database -/

structure Honest (db : Database) (t : ℕ) : Prop where
  manifests : manifestTracking.Honest db t
  blobs : blobTracking.Honest db t
  layers : layerMirror.Honest db t
  configurations : configurationMirror.Honest db t

structure Tracked (rows : List Row) : Prop where
  manifests : manifestTracking.Tracked rows
  blobs : blobTracking.Tracked rows
  layers : layerMirror.Tracked rows
  configurations : configurationMirror.Tracked rows

structure Healthy (serial : ℕ) (db : Database) : Prop where
  sound : Sound schema db
  below : Below serial db.db
  belowStaged : ∀ t, Below serial (db.delta t).ins
  honest : ∀ t, Honest db t
  tracked : Tracked db.db

theorem Below.mono {m n rows} (h : Below m rows) (hmn : m ≤ n) : Below n rows :=
  ⟨fun _ _ _ _ hr => Nat.lt_of_lt_of_le (h.1 _ _ _ _ hr) hmn,
    fun _ _ _ _ hr => Nat.lt_of_lt_of_le (h.2 _ _ _ _ hr) hmn⟩

variable {db : Database} {serial : ℕ}

/-- So are the ids a session sees. -/
theorem Healthy.below_view (h : Healthy serial db) (t : ℕ) : Below serial (db.view t) := by
  constructor
  · intro repo id d p hr
    rcases (Delta.mem_view _ _ _).1 hr with hr | ⟨hr, -⟩
    · exact (h.belowStaged t).1 _ _ _ _ hr
    · exact h.below.1 _ _ _ _ hr
  · intro repo id m d hr
    rcases (Delta.mem_view _ _ _).1 hr with hr | ⟨hr, -⟩
    · exact (h.belowStaged t).2 _ _ _ _ hr
    · exact h.below.2 _ _ _ _ hr

/-- New rows have new ids. -/
theorem below_effect_ins (q : Stmt) (env : Env) : Below (env.serial + 1) (q.effect env).ins := by
  constructor
  · intro repo id d p hr
    obtain ⟨-, rfl⟩ := manifest_mem_ins hr
    exact Nat.lt_succ_self _
  · intro repo id m d hr
    obtain ⟨-, rfl⟩ := layer_mem_ins hr
    exact Nat.lt_succ_self _

variable {t : ℕ}

/-- INTERNAL: a justified statement keeps the database healthy. -/
theorem Healthy.exec {db db' : Database} {q : Stmt} {env : Env} (h : Healthy serial db)
    (hv : env.view = db.view t) (hserial : env.serial = serial) (hj : Justified db t q)
    (hw : db.write schema t (q.effect env) = .done db') : Healthy (serial + 1) db' := by
  obtain ⟨hg, hc', rfl⟩ := Store.write_eq_done hw
  have hc := h.sound.views t
  have hb : Below env.serial (db.view t) := hserial ▸ h.below_view t
  have hothers : ∀ u, u ≠ t → Honest (db.staged schema t (q.effect env)) u := fun u hu =>
    have hδ := Store.delta_staged_of_ne (S := schema) db (q.effect env) hu
    ⟨(h.honest u).manifests.congr rfl hδ, (h.honest u).blobs.congr rfl hδ,
      (h.honest u).layers.congr rfl hδ, (h.honest u).configurations.congr rfl hδ⟩
  refine ⟨h.sound.staged hg hc', h.below.mono (Nat.le_succ _), fun u => ?_, fun u => ?_, h.tracked⟩
  · by_cases hu : u = t
    · subst hu
      have hnew := hserial ▸ below_effect_ins q env
      have hold := (h.belowStaged u).mono (Nat.le_succ serial)
      simp only [Below, Store.delta_staged_self, Delta.mem_andThen_ins]
      exact ⟨fun _ _ _ _ hr => hr.elim (hnew.1 _ _ _ _) (fun hr => hold.1 _ _ _ _ hr.1),
        fun _ _ _ _ hr => hr.elim (hnew.2 _ _ _ _) (fun hr => hold.2 _ _ _ _ hr.1)⟩
    · rw [Store.delta_staged_of_ne _ _ hu]
      exact (h.belowStaged u).mono (Nat.le_succ _)
  · by_cases hu : u = t
    · subst hu
      exact ⟨(h.honest u).manifests.staged (honest_manifests hv hc q hj),
        (h.honest u).blobs.staged (honest_blobs hv hc q hj),
        (h.honest u).layers.staged (honest_layers hv hc q hb hc'),
        (h.honest u).configurations.staged (honest_configurations hv hc q hb hc')⟩
    · exact hothers u hu

/-- So does a commit, -/
theorem Healthy.commit (h : Healthy serial db) (t : ℕ) : Healthy serial (db.commit t) where
  sound := h.sound.commit t
  below := h.below_view t
  belowStaged u := by
    by_cases hu : u = t
    · subst hu; simp [Store.commit, Below]
    · rw [db.delta_commit_of_ne hu]; exact h.belowStaged u
  honest u :=
    ⟨(h.honest t).manifests.commit h.sound (h.honest u).manifests,
      (h.honest t).blobs.commit h.sound (h.honest u).blobs,
      (h.honest t).layers.commit h.sound (h.honest u).layers,
      (h.honest t).configurations.commit h.sound (h.honest u).configurations⟩
  tracked :=
    ⟨Tracking.tracked_commit (h.honest t).manifests h.tracked.manifests,
      Tracking.tracked_commit (h.honest t).blobs h.tracked.blobs,
      Tracking.tracked_commit (h.honest t).layers h.tracked.layers,
      Tracking.tracked_commit (h.honest t).configurations h.tracked.configurations⟩

/-- and a rollback. -/
theorem Healthy.rollback (h : Healthy serial db) (t : ℕ) : Healthy serial (db.rollback t) where
  sound := h.sound.rollback t
  below := h.below
  belowStaged u := by
    by_cases hu : u = t
    · subst hu; simp [Store.rollback, Below]
    · rw [db.delta_rollback_of_ne hu]; exact h.belowStaged u
  honest u := by
    by_cases hu : u = t
    · subst hu
      have hδ : (db.rollback u).delta u = ⟨[], []⟩ := Store.delta_release_self ..
      exact ⟨.of_delta_nil hδ, .of_delta_nil hδ, .of_delta_nil hδ, .of_delta_nil hδ⟩
    · have hδ := db.delta_rollback_of_ne hu
      exact ⟨(h.honest u).manifests.congr rfl hδ, (h.honest u).blobs.congr rfl hδ,
        (h.honest u).layers.congr rfl hδ, (h.honest u).configurations.congr rfl hδ⟩
  tracked := h.tracked

theorem Healthy.empty : Healthy 0 (Store.empty : Database) where
  sound := .empty
  below := by simp [Below, Store.empty]
  belowStaged := by simp [Below, Store.empty]
  honest _ := ⟨.of_delta_nil rfl, .of_delta_nil rfl, .of_delta_nil rfl, .of_delta_nil rfl⟩
  tracked := by
    constructor <;> rintro i ⟨r, hr, -⟩ <;> exact absurd hr not_mem_nil

/-! ## The sessions -/

/-- The session has staged nothing at this program point. -/
def clean : Proc → Bool
  | .abort _ | .associate _ _ _ _ _ | .commit _ _ _ => false
  | .manifestTask _ (.commit _) => false
  | .image _ (.createCommit _) | .image _ (.associateCommit _ _ _) => false
  | .upload _ _ .find | .upload _ _ .link | .upload _ _ .commit => false
  | .mount _ _ _ (.commit _) | .unlink _ _ (.commit _) => false
  | .blobTask _ .forget | .blobTask _ (.commit _) => false
  | _ => true

structure Fits (db : Database) (t : ℕ) (p : Proc) : Prop where
  staged : clean p = true → db.delta t = ⟨[], []⟩
  holds : ∀ task st, p = .manifestTask task st → db.Holds t (.manifestReview task.repo task.id)
  settled : ∀ task, p = .manifestTask task .forget →
    manifestTracking.Settled db.db (task.repo, task.id)
  holdsBlob : ∀ task st, p = .blobTask task st → db.Holds t (.blobReview task.digest)
  settledBlob : ∀ task, p = .blobTask task .forget → Justified db t (.deleteBlobReview task.digest)

variable {p : Proc}

/-- Before its first statement a session sees what is committed. -/
theorem Fits.view_eq (h : Fits db t p) (hc : clean p = true) : db.view t = db.db := by
  simp [Store.view, h.staged hc]

/-- INTERNAL: a session outside both workers only has to have staged what its program point
says. -/
theorem Fits.of_clean (hstaged : clean p = true → db.delta t = ⟨[], []⟩)
    (hm : ∀ task st, p ≠ .manifestTask task st) (hb : ∀ task st, p ≠ .blobTask task st) :
    Fits db t p :=
  ⟨hstaged, fun _ _ h => absurd h (hm _ _), fun _ h => absurd h (hm _ _),
    fun _ _ h => absurd h (hb _ _), fun _ h => absurd h (hb _ _)⟩

/-- A session of the manifest worker holds its review, and knows why it may take it off. -/
theorem Fits.of_manifestTask {task : ManifestTask} {st}
    (hstaged : clean (.manifestTask task st) = true → db.delta t = ⟨[], []⟩)
    (hholds : db.Holds t (.manifestReview task.repo task.id))
    (hsettled : st = .forget → manifestTracking.Settled db.db (task.repo, task.id)) :
    Fits db t (.manifestTask task st) :=
  ⟨hstaged, fun _ _ he => by cases he; exact hholds,
    fun _ he => by cases he; exact hsettled rfl, by simp, by simp⟩

/-- So does one of the blob worker. -/
theorem Fits.of_blobTask {task : BlobTask} {st}
    (hstaged : clean (.blobTask task st) = true → db.delta t = ⟨[], []⟩)
    (hholds : db.Holds t (.blobReview task.digest))
    (hsettled : st = .forget → Justified db t (.deleteBlobReview task.digest)) :
    Fits db t (.blobTask task st) :=
  ⟨hstaged, by simp, by simp, fun _ _ he => by cases he; exact hholds,
    fun _ he => by cases he; exact hsettled rfl⟩

theorem Fits.of_delta_nil (h : db.delta t = ⟨[], []⟩) (hm : ∀ task st, p ≠ .manifestTask task st)
    (hb : ∀ task st, p ≠ .blobTask task st) : Fits db t p :=
  .of_clean (fun _ => h) hm hb

variable {view : List Row}

theorem manifestReferenced_iff {repo id} :
    manifestReferenced view repo id ↔ manifestTracking.Referred view (repo, id) := by
  constructor
  · intro h
    obtain ⟨r, hr, hi⟩ := any_eq_true.1 h
    exact ⟨r, hr, by cases r <;> simp_all [manifestTracking]⟩
  · rintro ⟨r, hr, hi⟩
    exact any_eq_true.2 ⟨r, hr, by cases r <;> simp_all [manifestTracking]⟩

variable {digest : Digest}

theorem blobReferenced_iff : blobReferenced view digest ↔ blobTracking.Referred view digest := by
  constructor
  · intro h
    obtain ⟨r, hr, hi⟩ := any_eq_true.1 h
    exact ⟨r, hr, by cases r <;> simp_all [blobTracking]⟩
  · rintro ⟨r, hr, hi⟩
    exact any_eq_true.2 ⟨r, hr, by cases r <;> simp_all [blobTracking]⟩

theorem present_blob_iff : blobTracking.Present view digest ↔ blobExists view digest := by
  rw [blobExists_iff]
  constructor
  · rintro ⟨r, hr, hi⟩
    cases r <;> simp [blobTracking] at hi
    exact hi ▸ hr
  · exact fun h => ⟨_, h, rfl⟩

variable {s : State}

/-- A step without a statement. -/
theorem Fits.hop {p p'} (h : Fits s.db t p) (hop : Hops s t p p') : Fits s.db t p' := by
  cases hop with
  | manifestReferenced task href =>
    rw [h.view_eq rfl] at href
    exact .of_manifestTask (fun _ => h.staged rfl) (h.holds _ _ rfl)
      fun _ _ => manifestReferenced_iff.1 href
  | manifestDangling task _ =>
    exact .of_manifestTask (fun _ => h.staged rfl) (h.holds _ _ rfl) (by simp)
  | blobReferenced task href =>
    rw [h.view_eq rfl] at href
    exact .of_blobTask (by simp [clean]) (h.holdsBlob _ _ rfl)
      fun _ => .inl ⟨h.staged rfl, fun _ => blobReferenced_iff.1 href⟩
  | blobDangling task _ | blobAbsent task _ | blobFound task _ =>
    exact .of_blobTask (fun _ => h.staged rfl) (h.holdsBlob _ _ rfl) (by simp)
  | blobMissing task hmiss =>
    rw [h.view_eq rfl] at hmiss
    exact .of_blobTask (by simp [clean]) (h.holdsBlob _ _ rfl)
      fun _ => .inl ⟨h.staged rfl, fun hp => by simp [present_blob_iff.1 hp] at hmiss⟩
  | _ => exact .of_clean (fun hc => h.staged (by simp_all [clean])) (by simp) (by simp)

theorem Fits.begin {p p'} (h : Fits s.db t p) (hb : Begins s p p') : Fits s.db t p' := by
  cases hb <;> exact .of_clean (fun _ => h.staged rfl) (by simp) (by simp)

theorem Fits.justified {q} {next : Bool → Proc} (h : Fits s.db t p)
    (hx : Execs s t p q next) : Justified s.db t q := by
  cases hx with
  | manifestForget task => exact ⟨h.staged rfl, h.settled task rfl⟩
  | blobForget task => exact h.settledBlob task rfl
  | _ => trivial

/-- INTERNAL: after `DELETE FROM blobs` a worker may take the blob off the queue. -/
theorem justified_of_deleteBlob {env : Env} (hv : env.view = db.view t)
    (hc : Consistent schema (db.view t)) (hδ : db.delta t = ⟨[], []⟩) :
    Justified (db.staged schema t (env.deleteBlob digest)) t (.deleteBlobReview digest) := by
  have hdb : db.view t = db.db := by simp [Store.view, hδ]
  rw [hdb] at hv hc
  by_cases hb : .blob digest ∈ env.view
  · refine .inr ⟨⟨.blob digest, ?_, rfl⟩, ?_⟩
    · simp [Env.deleteBlob, cascadesFromBlob, hb]
    · rintro ⟨r, hr, hi⟩
      cases r <;> simp [blobTracking] at hi
      simp [hdb, Env.deleteBlob, cascadesFromBlob, hv, hi] at hr
  -- nothing cascades from a blob that is not there
  have hdel : env.view.filter (cascadesFromBlob digest) = [] := by
    rw [filter_eq_nil_iff]
    intro r hr hcas
    rw [hv] at hr hb
    cases r <;> simp [cascadesFromBlob] at hcas <;> subst hcas
    · exact hb hr
    · exact hb (blob_of_parent hc hr (by simp [rowParents]))
    · exact hb (blob_of_parent hc hr (by simp [rowParents]))
    · exact hb (blob_of_parent hc hr (by simp [rowParents]))
  refine .inl ⟨by simp [Env.deleteBlob, hdel, hδ, writes], ?_⟩
  rintro ⟨r, hr, hi⟩
  cases r <;> simp [blobTracking] at hi
  rw [hv] at hb
  exact absurd (hi ▸ hr) hb

variable {c : Settings}

/-- INTERNAL: a statement. -/
theorem Fits.exec {q : Stmt} {next : Bool → Proc} {b : Bool} (h : Fits s.db t p)
    (hc : Consistent schema (s.db.view t)) (hx : Execs s t p q next) :
    Fits (s.db.staged schema t (q.effect (envOf c s t))) t (next b) := by
  cases hx with
  | lock repo g since found =>
    exact .of_clean (fun _ => by
      simpa [Stmt.effect, Env.lockManifestReviews, locks] using h.staged rfl) (by simp) (by simp)
  | manifestNext repo id after count tuple _ _ =>
    exact .of_manifestTask (fun _ => by simpa [Stmt.effect, locks] using h.staged rfl)
      (Store.holds_staged_lock _ _ (by simp [Stmt.effect])) (by simp)
  | manifestDelete task =>
    exact .of_manifestTask (by simp [clean]) (Store.mem_staged_locks (h.holds _ _ rfl)) (by simp)
  | manifestForget task | manifestPostpone task =>
    cases b
    · exact .of_clean (by simp [clean]) (by simp) (by simp)
    · exact .of_manifestTask (by simp [clean]) (Store.mem_staged_locks (h.holds _ _ rfl)) (by simp)
  | blobNext digest after count _ _ =>
    exact .of_blobTask (fun _ => by simpa [Stmt.effect, locks] using h.staged rfl)
      (Store.holds_staged_lock _ _ (by simp [Stmt.effect])) (by simp)
  | blobDelete task =>
    exact .of_blobTask (by simp [clean]) (Store.mem_staged_locks (h.holdsBlob _ _ rfl))
      fun _ => justified_of_deleteBlob rfl hc (h.staged rfl)
  | blobForget task | blobPostpone task =>
    cases b
    · exact .of_clean (by simp [clean]) (by simp) (by simp)
    · exact .of_blobTask (by simp [clean]) (Store.mem_staged_locks (h.holdsBlob _ _ rfl)) (by simp)
  | untag | delete | uploadCreate =>
    cases b <;> exact .of_clean (by simp [clean]) (by simp) (by simp)
  | _ => exact .of_clean (by simp [clean]) (by simp) (by simp)

theorem Fits.untouched {db db' : Database} {u : ℕ} (h : Fits db u p)
    (hu : Store.Untouched u db db') : Fits db' u p := by
  refine ⟨fun hc => hu.delta ▸ h.staged hc, fun task st hp => hu.holds _ (h.holds task st hp),
    fun task hp => ?_, fun task st hp => hu.holds _ (h.holdsBlob task st hp), fun task hp => ?_⟩
  · rw [hu.db]; exact h.settled task hp
  · simpa [Justified, hu.delta, hu.view, hu.db] using h.settledBlob task hp

/-- The commit of another session. -/
theorem Fits.commit_other {t u} (hdb : Healthy serial db) (h : Fits db u p) (hu : u ≠ t) :
    Fits (db.commit t) u p := by
  have hδ := db.delta_commit_of_ne hu
  refine ⟨fun hc => hδ ▸ h.staged hc, fun task st hp => ?_, fun task hp => ?_,
    fun task st hp => ?_, fun task hp => ?_⟩
  · simpa [Store.Holds, Store.commit, hu] using h.holds task st hp
  · exact (h.settled task hp).commit hdb.sound (hdb.honest t).manifests hu (h.holds task _ hp)
  · simpa [Store.Holds, Store.commit, hu] using h.holdsBlob task st hp
  · rcases h.settledBlob task hp with ⟨hnil, hset⟩ | hgone
    · exact .inl ⟨hδ ▸ hnil, hset.commit hdb.sound (hdb.honest t).blobs hu (h.holdsBlob task _ hp)⟩
    · rw [Justified, hδ, db.view_commit_of_ne hu]
      exact .inr (hgone.commit hdb.sound hu)

/-! ## The system -/

structure Integrity (s : State) : Prop where
  healthy : Healthy s.serial s.db
  fits : ∀ t, Fits s.db t (s.sess t).proc

theorem clean_of_free (h : p.free = true) : clean p = true := by
  cases p <;> simp [Proc.free] at h <;> rfl

theorem Fits.aside {p p'} (h : Fits db t p) (ha : Aside p p') : Fits db t p' := by
  cases ha with
  | store repo digest => exact .of_delta_nil (h.staged rfl) (by simp) (by simp)
  | manifestReviewFails task =>
    exact .of_manifestTask (fun _ => h.staged rfl) (h.holds _ _ rfl) (by simp)
  | remove task | blobReviewFails task | storageFails task =>
    exact .of_blobTask (fun _ => h.staged rfl) (h.holdsBlob _ _ rfl) (by simp)

theorem Healthy.step {s s' a} (h : Integrity s) (hs : Steps c s a s') :
    Healthy s'.serial s'.db := by
  cases hs with
  | exec t pick q next v db hreq hw =>
    exact h.healthy.exec rfl rfl ((h.fits t).justified (execs_of_request hreq)) hw
  | commit t => exact h.healthy.commit t
  | violation t | finish t | fail t => exact h.healthy.rollback t
  | _ => exact h.healthy

/-- **Every step keeps the database and the sessions in order.** -/
theorem Integrity.step {s s' a} (h : Integrity s) (hs : Steps c s a s') : Integrity s' := by
  refine ⟨.step h hs, ?_⟩
  apply hs.sessions (P := fun _ _ db t σ => Fits db t σ.proc) h.fits
  case tick => exact fun _ => h.fits
  case start =>
    intro t call hfree
    refine .of_delta_nil ((h.fits t).staged (clean_of_free hfree)) ?_ ?_
    all_goals cases call <;> simp [Call.entry]
  case hop => exact fun t _ _ hop => (h.fits t).hop hop
  case begins => exact fun t _ hb => (h.fits t).begin hb
  case exec =>
    intro t q next hx
    exact ⟨(h.fits t).exec (h.healthy.sound.views t) hx,
      fun u hu => (h.fits u).untouched (.staged hu)⟩
  case commit =>
    intro t pick p _ hreq
    refine ⟨?_, fun u hu => (h.fits u).commit_other h.healthy hu⟩
    have hδ : (s.db.commit t).delta t = ⟨[], []⟩ := Store.delta_release_self ..
    have hcommits := commits_of_request hreq
    generalize (s.sess t).proc = p₀ at hcommits
    cases hcommits <;> exact .of_delta_nil hδ (by simp) (by simp)
  case quit =>
    intro t r
    exact ⟨.of_delta_nil (Store.delta_release_self ..) (by simp) (by simp),
      fun u hu => (h.fits u).untouched (.rollback hu)⟩
  case aside => exact fun t _ ha => (h.fits t).aside ha

theorem Integrity.init : Integrity init :=
  ⟨.empty, fun _ => .of_delta_nil rfl (by simp [Model.init]) (by simp [Model.init])⟩

/-- The step is one of the first `n` sessions, or of none. -/
def Within (n : ℕ) (a : Action) : Prop := ∀ t ∈ actor a, t < n

instance (n : ℕ) (a : Action) : Decidable (Within n a) :=
  inferInstanceAs (Decidable (∀ t ∈ actor a, t < n))

theorem idle_of_within {ok : State → Action → Prop} {n} (hok : ∀ s a, ok s a → Within n a)
    (h : Reach (step c) ok init s) : ∀ u, n ≤ u → (s.sess u).proc = .idle := by
  refine h.invariant (P := fun s => ∀ u, n ≤ u → (s.sess u).proc = .idle) (fun _ _ => rfl) ?_
  intro s a s' _ hidle ha hs u hu
  rw [(steps_of_step hs).sess_of_ne, hidle u hu]
  exact fun hact => absurd (hok s a ha u hact) (Nat.not_lt.2 hu)

abbrev Reachable (c : Settings) (s : State) : Prop := Reach (step c) (fun _ _ => True) init s

/-- **The invariant holds in every reachable state**, whatever condition is put on the steps. -/
theorem integrity_of_reach {ok : State → Action → Prop} (h : Reach (step c) ok init s) :
    Integrity s :=
  h.invariant .init fun _ _ _ _ hi _ hs => hi.step (steps_of_step hs)

/-! ## Reviews -/

/-- The key of the review a session is at. -/
def reviewed : Proc → Option Key
  | .manifestTask task _ => some (.manifestReview task.repo task.id)
  | .blobTask task _ => some (.blobReview task.digest)
  | _ => none

theorem Fits.holds_reviewed {p k} (h : Fits db t p) (hp : reviewed p = some k) : db.Holds t k := by
  cases p <;> cases hp
  · exact h.holds _ _ rfl
  · exact h.holdsBlob _ _ rfl

end ContainerRegistry.Analysis
