import ContainerRegistry.Model.Statements

/-!
# Which tables a statement touches

The frame condition of every statement: the tables it may delete from and those it may insert into,
cascades and triggers included.
-/

namespace ContainerRegistry.Analysis

open Library Model List

inductive Table where
  | manifests
  | tags
  | manifestReferences
  | manifestReviews
  | blobs
  | repositoryBlobs
  | layers
  | gcBlobsLayers
  | gcBlobsConfigurations
  | blobReviews
  deriving DecidableEq, Repr

def table : Row → Table
  | .manifest _ _ _ _ => .manifests
  | .tag _ _ _ => .tags
  | .manifestReference _ _ _ => .manifestReferences
  | .manifestReview _ _ _ _ _ => .manifestReviews
  | .blob _ => .blobs
  | .repositoryBlob _ _ => .repositoryBlobs
  | .layer _ _ _ _ => .layers
  | .gcBlobLayer _ _ _ => .gcBlobsLayers
  | .gcBlobConfiguration _ _ _ => .gcBlobsConfigurations
  | .blobReview _ _ _ => .blobReviews

def deletes : Stmt → List Table
  | .createOrUpdateTag _ _ _ | .deleteTagByName _ _ => [.tags, .manifestReviews]
  | .deleteManifest _ _ | .deleteManifestByID _ _ =>
    [.manifests, .tags, .manifestReferences, .manifestReviews, .layers, .gcBlobsLayers,
      .gcBlobsConfigurations, .blobReviews]
  | .deleteManifestReview _ _ | .postponeManifestReview _ _ _ _ => [.manifestReviews]
  | .unlinkBlob _ _ => [.repositoryBlobs]
  | .deleteBlob _ => [.blobs, .repositoryBlobs, .gcBlobsLayers, .gcBlobsConfigurations]
  | .createBlob _ | .deleteBlobReview _ | .postponeBlobReview _ _ _ => [.blobReviews]
  | .lockManifestReviews _ _ _ | .createManifest _ _ _ | .associateManifest _ _ _
  | .lockManifestReview _ _ | .linkBlob _ _ | .associateLayerBlob _ _ _ | .lockBlobReview _ => []

def inserts : Stmt → List Table
  | .createOrUpdateTag _ _ _ => [.tags, .manifestReviews]
  | .deleteTagByName _ _ | .postponeManifestReview _ _ _ _ => [.manifestReviews]
  | .createManifest _ _ _ => [.manifests, .manifestReviews, .gcBlobsConfigurations]
  | .associateManifest _ _ _ => [.manifestReferences]
  | .deleteManifest _ _ | .deleteManifestByID _ _ => [.manifestReviews, .blobReviews]
  | .createBlob _ => [.blobs, .blobReviews]
  | .linkBlob _ _ => [.repositoryBlobs]
  | .associateLayerBlob _ _ _ => [.layers, .gcBlobsLayers]
  | .postponeBlobReview _ _ _ => [.blobReviews]
  | .lockManifestReviews _ _ _ | .lockManifestReview _ _ | .deleteManifestReview _ _
  | .unlinkBlob _ _ | .deleteBlob _ | .lockBlobReview _ | .deleteBlobReview _ => []

@[simp] theorem table_manifestReview (env : Env) (e : Event) (repo : RepoKey) (id : ℕ) :
    table (env.manifestReview e repo id) = .manifestReviews := by
  obtain ⟨count, tuple, h⟩ := env.manifestReview_eq e repo id
  rw [h]; rfl

@[simp] theorem table_blobReview (env : Env) (e : Event) (digest : Digest) :
    table (env.blobReview e digest) = .blobReviews := rfl

theorem table_of_isManifestReviewOf {repo ids r}
    (h : isManifestReviewOf repo ids r) : table r = .manifestReviews := by
  cases r <;> simp [isManifestReviewOf] at h; rfl

theorem table_of_isBlobReviewOf {digests r}
    (h : isBlobReviewOf digests r) : table r = .blobReviews := by
  cases r <;> simp [isBlobReviewOf] at h; rfl

/-- The tables of a manifest delete. -/
theorem table_deleteManifest (env : Env) (repo : RepoKey) (id : ℕ) :
    (∀ r ∈ (env.deleteManifest repo id).del, table r ∈
      [.manifests, .tags, .manifestReferences, .manifestReviews, .layers, .gcBlobsLayers,
        .gcBlobsConfigurations, .blobReviews]) ∧
    ∀ r ∈ (env.deleteManifest repo id).ins, table r ∈ [.manifestReviews, .blobReviews] := by
  constructor
  · intro r hr
    simp only [Env.deleteManifest, writes_del, mem_append, mem_filter] at hr
    rcases hr with (⟨-, h⟩ | ⟨-, h⟩) | ⟨-, h⟩
    · cases r <;> simp [cascadesFrom, table] at h ⊢
    · simp [table_of_isManifestReviewOf h]
    · simp [table_of_isBlobReviewOf h]
  · intro r hr
    simp only [Env.deleteManifest, writes_ins, mem_append, mem_map] at hr
    rcases hr with (⟨_, -, rfl⟩ | ⟨_, -, rfl⟩) | ⟨_, -, rfl⟩ <;> simp

/-- **Frame.** A statement deletes only from the tables it `deletes` from. -/
theorem table_mem_deletes {q env r} (hr : r ∈ (q.effect env).del) : table r ∈ deletes q := by
  cases q with
  | createOrUpdateTag repo name id =>
    simp only [Stmt.effect, Env.createOrUpdateTag] at hr
    split at hr
    · simp at hr
    · split at hr
      · simp at hr
      · rcases mem_cons.1 hr with rfl | hr
        · simp [table, deletes]
        · simp [table_of_isManifestReviewOf (mem_filter.1 hr).2, deletes]
  | deleteTagByName repo name =>
    simp only [Stmt.effect, Env.deleteTagByName] at hr
    split at hr
    · simp at hr
    split at hr
    · rcases mem_cons.1 hr with rfl | hr
      · simp [table, deletes]
      · simp [table_of_isManifestReviewOf (mem_filter.1 hr).2, deletes]
    · simp only [writes_del, mem_singleton] at hr
      simp [hr, table, deletes]
  | deleteManifest repo digest =>
    simp only [Stmt.effect] at hr
    split at hr
    · simp at hr
    · exact (table_deleteManifest _ _ _).1 r hr
  | deleteManifestByID repo id => exact (table_deleteManifest _ _ _).1 r hr
  | deleteManifestReview repo id =>
    simp [table_of_isManifestReviewOf (mem_filter.1 hr).2, deletes]
  | postponeManifestReview repo id after count =>
    simp only [Stmt.effect, Env.postponeManifestReview] at hr
    split at hr
    · simp at hr
    · simp [table_of_isManifestReviewOf (mem_filter.1 hr).2, deletes]
  | createBlob digest =>
    simp only [Stmt.effect, Env.createBlob] at hr
    split at hr
    · simp at hr
    · simp [table_of_isBlobReviewOf (mem_filter.1 hr).2, deletes]
  | unlinkBlob repo digest =>
    have h := (mem_filter.1 hr).2
    simp only [decide_eq_true_eq] at h
    simp [h, table, deletes]
  | deleteBlob digest =>
    have h := (mem_filter.1 hr).2
    cases r <;> simp [cascadesFromBlob, table, deletes] at h ⊢
  | deleteBlobReview digest =>
    simp [table_of_isBlobReviewOf (mem_filter.1 hr).2, deletes]
  | postponeBlobReview digest after count =>
    simp only [Stmt.effect, Env.postponeBlobReview] at hr
    split at hr
    · simp at hr
    · simp [table_of_isBlobReviewOf (mem_filter.1 hr).2, deletes]
  | associateManifest | linkBlob | associateLayerBlob =>
    simp only [Stmt.effect, Env.associateManifest, Env.linkBlob, Env.associateLayerBlob] at hr
    split at hr <;> simp at hr
  | lockManifestReviews | createManifest | lockManifestReview | lockBlobReview =>
    simp [Stmt.effect, Env.lockManifestReviews, Env.createManifest] at hr

/-- **Frame.** A statement inserts only into the tables it `inserts` into. -/
theorem table_mem_inserts {q env r} (hr : r ∈ (q.effect env).ins) : table r ∈ inserts q := by
  cases q with
  | createOrUpdateTag repo name id =>
    simp only [Stmt.effect, Env.createOrUpdateTag] at hr
    split at hr
    · simp only [writes_ins, mem_singleton] at hr
      simp [hr, table, inserts]
    split at hr
    · simp at hr
    · simp only [writes_ins, mem_cons, not_mem_nil, or_false] at hr
      rcases hr with rfl | rfl
      · simp [table, inserts]
      · simp [inserts]
  | deleteTagByName repo name =>
    simp only [Stmt.effect, Env.deleteTagByName] at hr
    split at hr
    · simp at hr
    · split at hr
      · simp only [writes_ins, mem_singleton] at hr
        simp [hr, inserts]
      · simp at hr
  | createManifest repo digest payload =>
    simp only [Stmt.effect, Env.createManifest, writes_ins, mem_cons, mem_flatMap] at hr
    rcases hr with rfl | rfl | ⟨d, -, hr⟩
    · simp [table, inserts]
    · simp [table, inserts]
    · unfold Env.trackConfiguration at hr
      split at hr
      · simp at hr
      · simp only [mem_singleton] at hr
        simp [hr, table, inserts]
  | deleteManifest repo digest =>
    simp only [Stmt.effect] at hr
    split at hr
    · simp at hr
    · exact (table_deleteManifest _ _ _).2 r hr
  | deleteManifestByID repo id => exact (table_deleteManifest _ _ _).2 r hr
  | associateLayerBlob repo id digest =>
    simp only [Stmt.effect, Env.associateLayerBlob, Env.trackLayer] at hr
    split at hr
    · simp at hr
    · split at hr <;> simp only [writes_ins, mem_cons, not_mem_nil, or_false] at hr
      · simp [hr, table, inserts]
      · rcases hr with rfl | rfl <;> simp [table, inserts]
  | createBlob digest =>
    simp only [Stmt.effect, Env.createBlob] at hr
    split at hr
    · simp at hr
    · simp only [writes_ins, mem_cons, not_mem_nil, or_false] at hr
      rcases hr with rfl | rfl
      · simp [table, inserts]
      · simp [inserts]
  | postponeManifestReview | postponeBlobReview | associateManifest | linkBlob =>
    simp only [Stmt.effect, Env.postponeManifestReview, Env.postponeBlobReview,
      Env.associateManifest, Env.linkBlob] at hr
    split at hr
    · simp at hr
    · simp only [writes_ins, mem_singleton] at hr
      simp [hr, table, inserts]
  | lockManifestReviews | lockManifestReview | deleteManifestReview | unlinkBlob | deleteBlob
  | lockBlobReview | deleteBlobReview =>
    simp [Stmt.effect, Env.lockManifestReviews, Env.deleteManifestReview, Env.unlinkBlob,
      Env.deleteBlob, Env.deleteBlobReview] at hr

variable {q : Stmt} {env : Env}

/-- Only `createManifest` inserts a manifest, under the next id. -/
theorem manifest_mem_ins {repo id digest payload}
    (hr : .manifest repo id digest payload ∈ (q.effect env).ins) :
    q = .createManifest repo digest payload ∧ id = env.serial := by
  have htable := table_mem_inserts hr
  cases q <;> simp [inserts, table] at htable
  simp only [Stmt.effect, Env.createManifest, writes_ins, mem_cons, Row.manifest.injEq,
    reduceCtorEq, false_or, mem_flatMap] at hr
  rcases hr with ⟨rfl, rfl, rfl, rfl⟩ | ⟨_, -, hr⟩
  · exact ⟨rfl, rfl⟩
  · unfold Env.trackConfiguration at hr
    split at hr <;> simp at hr

/-- Only `associateLayerBlob` inserts a layer. -/
theorem layer_mem_ins {repo layer id digest}
    (hr : .layer repo layer id digest ∈ (q.effect env).ins) :
    q = .associateLayerBlob repo id digest ∧ layer = env.serial := by
  have htable := table_mem_inserts hr
  cases q <;> simp [inserts, table] at htable
  simp only [Stmt.effect, Env.associateLayerBlob, Env.trackLayer] at hr
  split at hr
  · simp at hr
  · split at hr <;> simp at hr <;> simp [hr]

end ContainerRegistry.Analysis
