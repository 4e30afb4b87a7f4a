import ContainerRegistry.Library.ReviewQueue
import ContainerRegistry.Analysis.Footprints

/-!
# What the triggers track

The two review queues and the two mirror tables are four instances of `Library.ReviewQueue`. Every
statement, with its cascades and triggers, meets the obligation of all four, if what its transaction
saw before allows it (`Justified`).
-/

namespace ContainerRegistry.Analysis

open Library Model List

/-! ## The four instances -/

/-- Manifests, referenced by tags and as children of lists. -/
def manifestTracking : Tracking schema (RepoKey × ℕ) where
  item
    | .manifest repo id _ _ => some (repo, id)
    | _ => none
  refers
    | .tag repo _ id => some (repo, id)
    | .manifestReference repo _ child => some (repo, child)
    | _ => none
  task
    | .manifestReview repo id _ _ _ => some (repo, id)
    | _ => none
  itemKey i := .manifest i.1 i.2
  taskKey i := .manifestReview i.1 i.2
  itemKey_mem {r i} h := by cases r <;> simp_all [schema, rowKeys]; aesop
  taskKey_mem {r i} h := by cases r <;> simp_all [schema, rowKeys]; aesop

/-- Blobs, referenced by the rows of the mirror tables. -/
def blobTracking : Tracking schema Digest where
  item
    | .blob digest => some digest
    | _ => none
  refers
    | .gcBlobLayer _ _ digest => some digest
    | .gcBlobConfiguration _ _ digest => some digest
    | _ => none
  task
    | .blobReview digest _ _ => some digest
    | _ => none
  itemKey := .blob
  taskKey := .blobReview
  itemKey_mem {r i} h := by cases r <;> simp_all [schema, rowKeys]
  taskKey_mem {r i} h := by cases r <;> simp_all [schema, rowKeys]

def layerMirror : Tracking schema (RepoKey × ℕ × Digest) where
  item
    | .layer repo id _ digest => some (repo, id, digest)
    | _ => none
  refers _ := none
  task
    | .gcBlobLayer repo id digest => some (repo, id, digest)
    | _ => none
  itemKey i := .layerDigest i.1 i.2.1 i.2.2
  taskKey i := .gcBlobLayer i.2.2 i.2.1
  itemKey_mem {r i} h := by cases r <;> simp_all [schema, rowKeys]; aesop
  taskKey_mem {r i} h := by cases r <;> simp_all [schema, rowKeys]; aesop

def configurationMirror : Tracking schema (RepoKey × ℕ × Digest) where
  item
    | .manifest repo id _ payload => payload.configuration.map fun digest => (repo, id, digest)
    | _ => none
  refers _ := none
  task
    | .gcBlobConfiguration repo id digest => some (repo, id, digest)
    | _ => none
  itemKey i := .manifestConfiguration i.1 i.2.1 i.2.2
  taskKey i := .gcBlobConfiguration i.2.2 i.2.1
  itemKey_mem {r i} h := by cases r <;> simp_all [schema, rowKeys]; aesop
  taskKey_mem {r i} h := by cases r <;> simp_all [schema, rowKeys]; aesop

/-! ## Foreign keys, read as facts about rows -/

section Parents

variable {rows : List Row} (h : Consistent schema rows)
include h

variable {repo : RepoKey}

theorem manifest_of_parent {r id} (hr : r ∈ rows)
    (hp : .manifest repo id ∈ rowParents r) : ∃ d p, .manifest repo id d p ∈ rows := by
  obtain ⟨p, hp, hk⟩ := h.2 _ hr (.manifest repo id) hp
  cases p <;> simp [schema, rowKeys] at hk
  case manifest => obtain ⟨rfl, rfl⟩ := hk; exact ⟨_, _, hp⟩

variable {digest : Digest}

theorem blob_of_parent {r} (hr : r ∈ rows) (hp : .blob digest ∈ rowParents r) :
    .blob digest ∈ rows := by
  obtain ⟨p, hp, hk⟩ := h.2 _ hr (.blob digest) hp
  cases p <;> simp [schema, rowKeys] at hk
  case blob => exact hk ▸ hp

theorem layer_of_mirror {id} (hr : .gcBlobLayer repo id digest ∈ rows) :
    ∃ m, .layer repo id m digest ∈ rows := by
  obtain ⟨p, hp, hk⟩ := h.2 _ hr (.layerDigest repo id digest) (by simp [schema, rowParents])
  cases p <;> simp [schema, rowKeys] at hk
  case layer => obtain ⟨rfl, rfl, rfl⟩ := hk; exact ⟨_, hp⟩

theorem manifest_of_mirror {id} (hr : .gcBlobConfiguration repo id digest ∈ rows) :
    ∃ d p, .manifest repo id d p ∈ rows ∧ p.configuration = some digest := by
  obtain ⟨p, hp, hk⟩ := h.2 _ hr (.manifestConfiguration repo id digest)
    (by simp [schema, rowParents])
  cases p <;> simp [schema, rowKeys] at hk
  case manifest => obtain ⟨hd, rfl, rfl⟩ := hk; exact ⟨_, _, hp, hd⟩

end Parents

/-! ## The obligation, statement by statement -/

/-- The rows are from before the next id is drawn. -/
def Below (serial : ℕ) (rows : List Row) : Prop :=
  (∀ repo id d p, .manifest repo id d p ∈ rows → id < serial) ∧
  ∀ repo id m d, .layer repo id m d ∈ rows → id < serial

/-- What a transaction must know before it takes a review off its queue: that the item is referred
to or missing, or that it has itself removed it. -/
def Justified (db : Database) (t : ℕ) : Stmt → Prop
  | .deleteManifestReview repo id =>
    db.delta t = ⟨[], []⟩ ∧ manifestTracking.Settled db.db (repo, id)
  | .deleteBlobReview digest =>
    (db.delta t = ⟨[], []⟩ ∧ blobTracking.Settled db.db digest) ∨
      blobTracking.Gone (db.delta t) (db.view t) digest
  | _ => True

def isReview : Row → Bool
  | .manifestReview _ _ _ _ _ => true
  | .blobReview _ _ _ => true
  | _ => false

theorem isReview_manifestReview (env : Env) (e : Event) (repo : RepoKey) (id : ℕ) :
    isReview (env.manifestReview e repo id) := by
  obtain ⟨count, tuple, h⟩ := env.manifestReview_eq e repo id
  rw [h]; rfl

@[simp] theorem task_manifestReview (env : Env) (e : Event) (repo : RepoKey) (id : ℕ) :
    manifestTracking.task (env.manifestReview e repo id) = some (repo, id) := by
  obtain ⟨count, tuple, h⟩ := env.manifestReview_eq e repo id
  rw [h]; rfl

theorem item_of_isReview {r} (h : isReview r) :
    manifestTracking.item r = none ∧ blobTracking.item r = none ∧ layerMirror.item r = none ∧
      configurationMirror.item r = none := by
  cases r <;> first | exact ⟨rfl, rfl, rfl, rfl⟩ | simp [isReview] at h

variable {repo : RepoKey}

theorem item_deleteManifest_ins {env : Env} {id : ℕ} {r : Row}
    (h : r ∈ (env.deleteManifest repo id).ins) :
    manifestTracking.item r = none ∧ blobTracking.item r = none ∧ layerMirror.item r = none ∧
      configurationMirror.item r = none := by
  apply item_of_isReview
  simp only [Env.deleteManifest, writes_ins, mem_append, mem_map] at h
  rcases h with (⟨_, _, rfl⟩ | ⟨_, _, rfl⟩) | ⟨_, _, rfl⟩
  · exact isReview_manifestReview _ _ _ _
  · rfl
  · rfl

theorem mem_deleteManifest_del {env : Env} {id : ℕ} {r : Row} :
    r ∈ (env.deleteManifest repo id).del ↔ r ∈ env.view ∧
      (cascadesFrom env.view repo id r ∨ isManifestReviewOf repo (references env.view repo id) r ∨
        isBlobReviewOf (layersOf env.view repo id ++ configurationsOf env.view repo id) r) := by
  have hsplit : ∀ d, (d ∈ layersOf env.view repo id ∧ d ∉ configurationsOf env.view repo id) ∨
      d ∈ configurationsOf env.view repo id ↔
      d ∈ layersOf env.view repo id ∨ d ∈ configurationsOf env.view repo id := by
    intro d; tauto
  simp only [Env.deleteManifest, writes_del, mem_append, mem_filter]
  cases r <;> simp [isBlobReviewOf, hsplit] <;> tauto

theorem queued_deleteManifest {env : Env} {id : ℕ} {digest : Digest}
    (h : digest ∈ layersOf env.view repo id ∨ digest ∈ configurationsOf env.view repo id) :
    blobTracking.Queued (env.deleteManifest repo id).ins digest := by
  by_cases hconf : digest ∈ configurationsOf env.view repo id
  · exact ⟨_, mem_append_right _ (mem_map_of_mem hconf), rfl⟩
  · have hlayer : digest ∈ (layersOf env.view repo id).filter
        (· ∉ configurationsOf env.view repo id) := by
      simp [h.resolve_right hconf, hconf]
    exact ⟨_, mem_append_left _ (mem_append_right _ (mem_map_of_mem hlayer)), rfl⟩

section Obligations

attribute [local simp] cascadesFrom cascadesFromBlob isManifestReviewOf isBlobReviewOf

variable {db : Database} {t : ℕ} {env : Env} (hv : env.view = db.view t)
  (hc : Consistent schema (db.view t))

/-- INTERNAL: a statement that does not touch the tables of a discipline meets its
obligation. -/
theorem of_footprint {I : Type} {𝒯 : Tracking schema I} {q : Stmt}
    (hdel : ∀ r, table r ∈ deletes q → 𝒯.refers r = none ∧ 𝒯.task r = none)
    (hins : ∀ r, table r ∈ inserts q → 𝒯.item r = none) : 𝒯.HonestEffect db t (q.effect env) :=
  .of_untouched (fun r hr => hdel r (table_mem_deletes hr))
    (fun r hr => hins r (table_mem_inserts hr))

theorem of_deleteManifest {I : Type} {𝒯 : Tracking schema I} {repo digest}
    (h : ∀ id, 𝒯.HonestEffect db t (env.deleteManifest repo id)) :
    𝒯.HonestEffect db t ((Stmt.deleteManifest repo digest).effect env) := by
  simp only [Stmt.effect]
  split
  · exact .of_untouched (by simp) (by simp)
  · exact h _

/-- A tag that goes leaves a review. -/
theorem untag_honest {repo name old e ins} (hrev : env.manifestReview e repo old ∈ ins)
    (hins : ∀ r ∈ ins, manifestTracking.item r = none) :
    manifestTracking.HonestEffect db t
      (writes ins (.tag repo name old :: env.view.filter (isManifestReviewOf repo [old]))) := by
  have hqueued : manifestTracking.Queued ins (repo, old) := ⟨_, hrev, by simp⟩
  refine .of_queued (fun r hr i hi => ?_) (fun r hr i hi => by simp [hins r hr] at hi)
  simp only [writes_del, mem_cons, mem_filter] at hr
  rcases hr with rfl | ⟨-, hrev⟩
  · simp only [manifestTracking, Option.some.injEq, reduceCtorEq, or_false] at hi
    exact hi ▸ hqueued
  · cases r <;> simp [manifestTracking] at hrev hi
    obtain ⟨rfl, rfl⟩ := hrev
    exact hi ▸ hqueued

/-- A new manifest is queued. -/
theorem createManifest_honest_manifests (repo : RepoKey) (digest : Digest) (payload : Payload) :
    manifestTracking.HonestEffect db t (env.createManifest repo digest payload) := by
  refine .of_queued (fun r hr => by simp [Env.createManifest] at hr) (fun r hr i hi => ?_)
  have hqueued : manifestTracking.Queued (env.createManifest repo digest payload).ins
      (repo, env.serial) := ⟨_, mem_cons_of_mem _ mem_cons_self, rfl⟩
  simp only [Env.createManifest, writes_ins, mem_cons, mem_flatMap] at hr
  rcases hr with rfl | rfl | ⟨d, -, hr⟩
  · simp only [manifestTracking, Option.some.injEq] at hi
    exact hi ▸ hqueued
  · simp [manifestTracking] at hi
  · unfold Env.trackConfiguration at hr
    split at hr <;> simp at hr
    subst hr
    simp [manifestTracking] at hi

/-- So is a new blob. -/
theorem createBlob_honest_blobs (digest : Digest) :
    blobTracking.HonestEffect db t (env.createBlob digest) := by
  unfold Env.createBlob
  split
  · exact .of_untouched (by simp) (by simp)
  have hqueued : blobTracking.Queued
      [Row.blob digest, env.blobReview .blobUpload digest] digest :=
    ⟨_, mem_cons_of_mem _ mem_cons_self, rfl⟩
  refine .of_queued (fun r hr i hi => ?_) (fun r hr i hi => ?_)
  · obtain ⟨-, hr⟩ := mem_filter.1 hr
    cases r <;> simp [blobTracking] at hr hi
    rw [← hi, hr]
    exact hqueued
  · simp only [writes_ins, mem_cons, not_mem_nil, or_false] at hr
    rcases hr with rfl | rfl
    · simp only [blobTracking, Option.some.injEq] at hi
      exact hi ▸ hqueued
    · simp [blobTracking, Env.blobReview] at hi

/-- INTERNAL: taking a blob off the queue is honest when it is settled, or removed by the same
transaction. -/
theorem deleteBlobReview_honest_blobs (digest : Digest)
    (hj : Justified db t (.deleteBlobReview digest)) :
    blobTracking.HonestEffect db t (env.deleteBlobReview digest) := by
  refine ⟨fun r hr i hi => ?_, fun r hr => by simp [Env.deleteBlobReview] at hr,
    fun r hr i hi => .inr ?_⟩
  all_goals
    obtain ⟨-, hrev⟩ := mem_filter.1 hr
    cases r <;> simp [blobTracking] at hrev hi
  subst hi hrev
  rcases hj with hset | ⟨⟨p, hp, hpi⟩, habs⟩
  · exact .inr hset
  · refine .inl ⟨⟨p, by simp [hp], hpi⟩, ?_⟩
    rintro ⟨r', hr', hi'⟩
    rw [Delta.mem_view] at hr'
    exact habs ⟨r', (hr'.resolve_left (by simp [Env.deleteBlobReview])).1, hi'⟩

include hv

theorem gone_deleteManifest {repo : RepoKey} {id : ℕ} {d : Digest} {p : Payload}
    (hm : .manifest repo id d p ∈ env.view) :
    manifestTracking.Gone (env.deleteManifest repo id).toDelta
      ((env.deleteManifest repo id).toDelta.view (db.view t)) (repo, id) := by
  rw [← hv]
  refine .of_deleted (mem_deleteManifest_del.2 ⟨hm, .inl (by simp)⟩) rfl
    (fun r hr => (item_deleteManifest_ins hr).1) (fun r hr hi => ?_)
  cases r <;> simp [manifestTracking] at hi
  obtain ⟨rfl, rfl⟩ := hi
  exact mem_deleteManifest_del.2 ⟨hr, .inl (by simp)⟩

include hc

/-- INTERNAL: deleting a manifest queues the children of a list; its own tags and its review go
with it. -/
theorem deleteManifest_honest_manifests (repo : RepoKey) (id : ℕ) :
    manifestTracking.HonestEffect db t (env.deleteManifest repo id) := by
  rw [← hv] at hc
  have hqueued : ∀ child ∈ references env.view repo id,
      manifestTracking.Queued (env.deleteManifest repo id).ins (repo, child) := fun child h =>
    ⟨_, mem_append_left _ (mem_append_left _ (mem_map_of_mem h)), by simp⟩
  refine .of_gone (fun r hr i hi => ?_) fun r hr => by simp [(item_deleteManifest_ins hr).1]
  obtain ⟨hmem, hcase⟩ := mem_deleteManifest_del.1 hr
  cases r <;> simp [manifestTracking] at hi <;> simp at hcase
  case tag =>
    obtain ⟨rfl, rfl⟩ := hcase
    obtain ⟨d, p, hm⟩ := manifest_of_parent hc hmem mem_cons_self
    exact .inr (hi ▸ gone_deleteManifest hv hm)
  case manifestReference =>
    obtain ⟨rfl, rfl⟩ := hcase
    exact .inl (hi ▸ hqueued _ (mem_references.2 hmem))
  case manifestReview =>
    rcases hcase with ⟨rfl, rfl⟩ | ⟨rfl, hchild⟩
    · obtain ⟨d, p, hm⟩ := manifest_of_parent hc hmem mem_cons_self
      exact .inr (hi ▸ gone_deleteManifest hv hm)
    · exact .inl (hi ▸ hqueued _ hchild)

/-- So are the blobs of a deleted manifest. -/
theorem deleteManifest_honest_blobs (repo : RepoKey) (id : ℕ) :
    blobTracking.HonestEffect db t (env.deleteManifest repo id) := by
  rw [← hv] at hc
  refine .of_queued (fun r hr i hi => queued_deleteManifest ?_)
    fun r hr => by simp [(item_deleteManifest_ins hr).2.1]
  obtain ⟨hmem, hcase⟩ := mem_deleteManifest_del.1 hr
  cases r <;> simp [blobTracking] at hi <;> subst hi <;> simp at hcase
  case gcBlobLayer =>
    obtain ⟨rfl, hlayer⟩ := hcase
    exact .inl (mem_layersOf.2 ⟨_, hlayer⟩)
  case gcBlobConfiguration =>
    obtain ⟨rfl, rfl⟩ := hcase
    obtain ⟨d, p, hm, hconf⟩ := manifest_of_mirror hc hmem
    exact .inr (mem_configurationsOf.2 ⟨_, _, hm, hconf⟩)
  case blobReview => exact hcase

/-- Its layers are mirrored no more, -/
theorem deleteManifest_honest_layers (repo : RepoKey) (id : ℕ) :
    layerMirror.HonestEffect db t (env.deleteManifest repo id) := by
  rw [← hv] at hc
  refine .of_gone (fun r hr i hi => .inr ?_)
    fun r hr => by simp [(item_deleteManifest_ins hr).2.2.1]
  obtain ⟨hmem, hcase⟩ := mem_deleteManifest_del.1 hr
  cases r <;> simp [layerMirror] at hi
  case gcBlobLayer repo' l d =>
    subst hi
    simp at hcase
    obtain ⟨rfl, hlayer⟩ := hcase
    rw [← hv]
    have hdel : _ ∈ (env.deleteManifest repo' id).del :=
      mem_deleteManifest_del.2 ⟨hlayer, .inl (by simp)⟩
    refine .of_deleted hdel rfl (fun r hr => (item_deleteManifest_ins hr).2.2.1)
      fun r' hr' hi => ?_
    cases r' <;> simp [layerMirror] at hi
    obtain ⟨rfl, rfl, rfl⟩ := hi
    -- the layer's id is a key, so this is the layer that was deleted
    rwa [hc.eq_of_key hr' hlayer mem_cons_self mem_cons_self]

/-- nor its configuration. -/
theorem deleteManifest_honest_configurations (repo : RepoKey) (id : ℕ) :
    configurationMirror.HonestEffect db t (env.deleteManifest repo id) := by
  rw [← hv] at hc
  refine .of_gone (fun r hr i hi => .inr ?_)
    fun r hr => by simp [(item_deleteManifest_ins hr).2.2.2]
  obtain ⟨hmem, hcase⟩ := mem_deleteManifest_del.1 hr
  cases r <;> simp [configurationMirror] at hi
  case gcBlobConfiguration repo' l d =>
    subst hi
    simp at hcase
    obtain ⟨rfl, rfl⟩ := hcase
    obtain ⟨d', p, hm, hconf⟩ := manifest_of_mirror hc hmem
    rw [← hv]
    refine .of_deleted (mem_deleteManifest_del.2 ⟨hm, .inl (by simp)⟩)
      (by simp [configurationMirror, hconf]) (fun r hr => (item_deleteManifest_ins hr).2.2.2)
      fun r' hr' hi => ?_
    cases r' <;> simp [configurationMirror] at hi
    obtain ⟨-, rfl, rfl⟩ := hi
    exact mem_deleteManifest_del.2 ⟨hr', .inl (by simp)⟩

/-- INTERNAL: creating a manifest mirrors its configuration: no mirror row has an id that is not yet
drawn. -/
theorem createManifest_honest_configurations (hb : Below env.serial (db.view t)) (repo : RepoKey)
    (digest : Digest) (payload : Payload) :
    configurationMirror.HonestEffect db t (env.createManifest repo digest payload) := by
  rw [← hv] at hc hb
  have hfresh : ∀ d, env.trackConfiguration repo env.serial d =
      [.gcBlobConfiguration repo env.serial d] := by
    intro d
    unfold Env.trackConfiguration
    rw [if_neg]
    intro hany
    obtain ⟨r, hr, hd⟩ := any_eq_true.1 hany
    cases r <;> simp at hd
    obtain ⟨rfl, rfl⟩ := hd
    obtain ⟨d', p, hm, -⟩ := manifest_of_mirror hc hr
    exact absurd (hb.1 _ _ _ _ hm) (Nat.lt_irrefl _)
  refine .of_queued (fun r hr => by simp [Env.createManifest] at hr) (fun r hr i hi => ?_)
  simp only [Env.createManifest, writes_ins, mem_cons, mem_flatMap, hfresh] at hr ⊢
  rcases hr with rfl | rfl | ⟨d, -, hr⟩
  · simp only [configurationMirror, Option.map_eq_some_iff] at hi
    obtain ⟨d, hd, rfl⟩ := hi
    exact ⟨.gcBlobConfiguration repo env.serial d, by simp [hd, hfresh], rfl⟩
  · simp [configurationMirror] at hi
  · simp at hr
    subst hr
    simp [configurationMirror] at hi

/-- A new layer is mirrored. -/
theorem associateLayerBlob_honest_layers (hb : Below env.serial (db.view t)) (repo : RepoKey)
    (id : ℕ) (digest : Digest) :
    layerMirror.HonestEffect db t (env.associateLayerBlob repo id digest) := by
  rw [← hv] at hc hb
  have hfresh : env.trackLayer repo env.serial digest =
      [.gcBlobLayer repo env.serial digest] := by
    unfold Env.trackLayer
    rw [if_neg]
    intro hany
    obtain ⟨r, hr, hd⟩ := any_eq_true.1 hany
    cases r <;> simp at hd
    obtain ⟨rfl, rfl⟩ := hd
    obtain ⟨m, hm⟩ := layer_of_mirror hc hr
    exact absurd (hb.2 _ _ _ _ hm) (Nat.lt_irrefl _)
  unfold Env.associateLayerBlob
  split
  · exact .of_untouched (by simp) (by simp)
  rw [hfresh]
  refine .of_queued (fun r hr => by simp at hr) (fun r hr i hi => ?_)
  simp only [writes_ins, mem_cons, not_mem_nil, or_false] at hr
  rcases hr with rfl | rfl
  · simp only [layerMirror, Option.some.injEq] at hi
    exact ⟨_, mem_cons_of_mem _ mem_cons_self, by simp [layerMirror, hi]⟩
  · simp [layerMirror] at hi

/-- A deleted blob is gone. -/
theorem deleteBlob_honest_blobs (digest : Digest) :
    blobTracking.HonestEffect db t (env.deleteBlob digest) := by
  rw [← hv] at hc
  refine .of_gone (fun r hr i hi => .inr ?_) (by simp [Env.deleteBlob])
  simp only [Env.deleteBlob, writes_del, mem_filter] at hr
  have hblob : .blob digest ∈ env.view := by
    cases r <;> simp [blobTracking] at hi hr
    all_goals exact blob_of_parent hc hr.1 (by simp [rowParents, hr.2])
  have hid : i = digest := by
    cases r <;> simp [blobTracking] at hi hr
    all_goals rw [← hi, hr.2]
  rw [← hv]
  refine .of_deleted (mem_filter.2 ⟨hblob, by simp⟩) (by rw [hid]; rfl) (by simp [Env.deleteBlob])
    fun r' hr' hi' => ?_
  cases r' <;> simp [blobTracking] at hi'
  exact mem_filter.2 ⟨hr', by simp [hi', hid]⟩

/-- INTERNAL: a mirror row is never cascaded away: its layer or manifest would be left without its
blob. -/
theorem deleteBlob_del_not_mirror (digest : Digest)
    (hc' : Consistent schema ((env.deleteBlob digest).toDelta.view (db.view t))) :
    ∀ r ∈ (env.deleteBlob digest).del, layerMirror.task r = none ∧
      configurationMirror.task r = none := by
  rw [← hv] at hc hc'
  -- what stays has no parent among what is deleted
  have hkept : ∀ p ∈ env.view, ¬cascadesFromBlob digest p → .blob digest ∉ rowParents p := by
    intro p hp hstays hparent
    have hp' : p ∈ (env.deleteBlob digest).toDelta.view env.view :=
      (Delta.mem_view _ _ _).2 (.inr ⟨hp, fun hdel => hstays (mem_filter.1 hdel).2⟩)
    simpa [Env.deleteBlob] using blob_of_parent hc' hp' hparent
  intro r hr
  simp only [Env.deleteBlob, writes_del, mem_filter] at hr
  obtain ⟨hr, hd⟩ := hr
  cases r <;> try exact ⟨rfl, rfl⟩
  case gcBlobLayer repo id d =>
    obtain rfl : d = digest := by simpa using hd
    obtain ⟨m, hl⟩ := layer_of_mirror hc hr
    exact absurd (by simp [rowParents]) (hkept _ hl (by simp))
  case gcBlobConfiguration repo id d =>
    obtain rfl : d = digest := by simpa using hd
    obtain ⟨d', p, hm, hconf⟩ := manifest_of_mirror hc hr
    exact absurd (by simp [rowParents, hconf]) (hkept _ hm (by simp))

/-- INTERNAL: **every statement is honest about manifests.** -/
theorem honest_manifests (q : Stmt) (hj : Justified db t q) :
    manifestTracking.HonestEffect db t (q.effect env) := by
  cases q with
  | createOrUpdateTag repo name id =>
    simp only [Stmt.effect, Env.createOrUpdateTag]
    split
    · exact .of_untouched (by simp) (by simp [manifestTracking])
    split
    · exact .of_untouched (by simp) (by simp)
    · refine untag_honest (mem_cons_of_mem _ mem_cons_self) ?_
      rintro r hr
      simp only [mem_cons, not_mem_nil, or_false] at hr
      rcases hr with rfl | rfl
      · rfl
      · exact (item_of_isReview (isReview_manifestReview ..)).1
  | deleteTagByName repo name =>
    simp only [Stmt.effect, Env.deleteTagByName]
    split
    · exact .of_untouched (by simp) (by simp)
    · rename_i old hold
      rw [if_pos (manifestExists_iff.2
        (manifest_of_parent (hv ▸ hc) (findTagByName_eq_some hold) (by simp [rowParents])))]
      exact untag_honest mem_cons_self
        (by simp [(item_of_isReview (isReview_manifestReview ..)).1])
  | createManifest repo digest payload => exact createManifest_honest_manifests repo digest payload
  | deleteManifest repo digest =>
    exact of_deleteManifest (deleteManifest_honest_manifests hv hc repo)
  | deleteManifestByID repo id => exact deleteManifest_honest_manifests hv hc repo id
  | deleteManifestReview repo id =>
    refine ⟨fun r hr i hi => ?_, fun r hr => by simp [Stmt.effect, Env.deleteManifestReview] at hr,
      fun r hr i hi => .inr (.inr ?_)⟩
    all_goals
      obtain ⟨-, hrev⟩ := mem_filter.1 hr
      cases r <;> simp [manifestTracking] at hrev hi
    obtain ⟨rfl, rfl⟩ := hrev
    exact ⟨hj.1, hi ▸ hj.2⟩
  | postponeManifestReview repo id after count =>
    simp only [Stmt.effect, Env.postponeManifestReview]
    split
    · exact .of_untouched (by simp) (by simp)
    · refine .of_queued (fun r hr i hi => ?_) (by simp [manifestTracking])
      obtain ⟨-, hrev⟩ := mem_filter.1 hr
      cases r <;> simp [manifestTracking] at hrev hi
      obtain ⟨rfl, rfl⟩ := hrev
      exact ⟨_, mem_singleton.2 rfl, by simp [manifestTracking, hi]⟩
  | _ =>
    refine of_footprint (fun r hr => ?_) (fun r hr => ?_) <;>
      cases r <;> simp [table, deletes, inserts, manifestTracking] at hr ⊢

/-- INTERNAL: **every statement is honest about blobs.** -/
theorem honest_blobs (q : Stmt) (hj : Justified db t q) :
    blobTracking.HonestEffect db t (q.effect env) := by
  cases q with
  | deleteManifest repo digest => exact of_deleteManifest (deleteManifest_honest_blobs hv hc repo)
  | deleteManifestByID repo id => exact deleteManifest_honest_blobs hv hc repo id
  | createBlob digest => exact createBlob_honest_blobs digest
  | deleteBlob digest => exact deleteBlob_honest_blobs hv hc digest
  | deleteBlobReview digest => exact deleteBlobReview_honest_blobs digest hj
  | postponeBlobReview digest after count =>
    simp only [Stmt.effect, Env.postponeBlobReview]
    split
    · exact .of_untouched (by simp) (by simp)
    · refine .of_queued (fun r hr i hi => ?_) (by simp [blobTracking])
      obtain ⟨-, hrev⟩ := mem_filter.1 hr
      cases r <;> simp [blobTracking] at hrev hi
      exact ⟨_, mem_singleton.2 rfl, by simp [blobTracking, ← hi, hrev]⟩
  | _ =>
    refine of_footprint (fun r hr => ?_) (fun r hr => ?_) <;>
      cases r <;> simp [table, deletes, inserts, blobTracking] at hr ⊢

/-- INTERNAL: **every statement is honest about the mirror of the layers.** -/
theorem honest_layers (q : Stmt) (hb : Below env.serial (db.view t))
    (hc' : Consistent schema ((q.effect env).toDelta.view (db.view t))) :
    layerMirror.HonestEffect db t (q.effect env) := by
  cases q with
  | deleteManifest repo digest => exact of_deleteManifest (deleteManifest_honest_layers hv hc repo)
  | deleteManifestByID repo id => exact deleteManifest_honest_layers hv hc repo id
  | deleteBlob digest =>
    exact .of_untouched
      (fun r hr => ⟨rfl, (deleteBlob_del_not_mirror hv hc digest hc' r hr).1⟩)
      (by simp [Stmt.effect, Env.deleteBlob])
  | associateLayerBlob repo id digest =>
    exact associateLayerBlob_honest_layers hv hc hb repo id digest
  | _ =>
    refine of_footprint (fun r hr => ?_) (fun r hr => ?_) <;>
      cases r <;> simp [table, deletes, inserts, layerMirror] at hr ⊢

/-- INTERNAL: **every statement is honest about the mirror of the configurations.** -/
theorem honest_configurations (q : Stmt) (hb : Below env.serial (db.view t))
    (hc' : Consistent schema ((q.effect env).toDelta.view (db.view t))) :
    configurationMirror.HonestEffect db t (q.effect env) := by
  cases q with
  | deleteManifest repo digest =>
    exact of_deleteManifest (deleteManifest_honest_configurations hv hc repo)
  | deleteManifestByID repo id => exact deleteManifest_honest_configurations hv hc repo id
  | deleteBlob digest =>
    exact .of_untouched
      (fun r hr => ⟨rfl, (deleteBlob_del_not_mirror hv hc digest hc' r hr).2⟩)
      (by simp [Stmt.effect, Env.deleteBlob])
  | createManifest repo digest payload =>
    exact createManifest_honest_configurations hv hc hb repo digest payload
  | _ =>
    refine of_footprint (fun r hr => ?_) (fun r hr => ?_) <;>
      cases r <;> simp [table, deletes, inserts, configurationMirror] at hr ⊢

end Obligations

end ContainerRegistry.Analysis
