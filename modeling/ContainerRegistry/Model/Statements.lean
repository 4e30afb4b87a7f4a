import ContainerRegistry.Model.Schema

/-!
# The SQL statements of the datastore

What each query of `registry/datastore` reads, and what each write does, with cascades and triggers.
A statement is evaluated when its last row lock is granted, in the view its transaction has then.

`gc_review_after` counts from `now()`, the start of the transaction, so an effect depends on that
time and on the table of delays (`Settings`). One sequence, `serial`, serves every table.
-/

namespace ContainerRegistry.Model

open Library List

inductive Event where
  | blobUpload
  | manifestUpload
  | manifestDelete
  | layerDelete
  | manifestListDelete
  | tagDelete
  | tagSwitch
  deriving DecidableEq, Repr

def second : ℕ := 1000000

def hour : ℕ := 3600 * second

/-- One day, the delay of an event that has no row in the table. -/
def day : ℕ := 24 * hour

/-- The settings the modelled code reads: the table of review delays, the transaction timeout
of the workers and whether the registry is a pull-through cache. -/
structure Settings where
  reviewAfterDefaults : Event → Option ℕ
  txTimeout : ℕ
  isCache : Bool

def Settings.reviewDelay (c : Settings) (e : Event) : ℕ := (c.reviewAfterDefaults e).getD day

/-- `gc_review_after`.
SOURCE: 20210503160748_create_gc_review_after_function.go:12-33 -/
def Settings.gcReviewAfter (c : Settings) (now : ℕ) (e : Event) : ℕ := now + c.reviewDelay e

/-- The settings of a registry as installed: one day for every event, and the default
transaction timeout of the workers.
SOURCE: 20210503160732_seed_gc_review_after_defaults_table.go:11-20,
worker/worker.go:25 -/
def standard : Settings := ⟨fun _ => some day, 10 * second, false⟩

theorem reviewDelay_standard (e : Event) : standard.reviewDelay e = day := by
  have h : standard.reviewAfterDefaults e = some day := rfl
  rw [Settings.reviewDelay, h, Option.getD_some]

/-- The settings under `gc.reviewafter: -1`, which turns the delay off. configuration.md:1314 -/
def immediate : Settings := { standard with reviewAfterDefaults := fun _ => some 0 }

/-! ## Queries -/

variable (view : List Row)

variable (repo : RepoKey)

def findManifestByDigest (digest : Digest) : Option (ℕ × Payload) :=
  view.findSome? fun
    | .manifest r id d payload => if r = repo ∧ d = digest then some (id, payload) else none
    | _ => none

def manifestExists (id : ℕ) : Bool :=
  view.any fun
    | .manifest r i _ _ => r = repo ∧ i = id
    | _ => false

def findTagByName (name : TagName) : Option ℕ :=
  view.findSome? fun
    | .tag r n id => if r = repo ∧ n = name then some id else none
    | _ => none

/-- `manifestStore.References`: the children of a list. -/
def references (id : ℕ) : List ℕ :=
  view.filterMap fun
    | .manifestReference r p c => if r = repo ∧ p = id then some c else none
    | _ => none

/-- The manifest is referenced by a tag or by a list: what `gcManifestTaskStore.IsDangling` asks.
datastore/gcmanifesttask.go:208-238 -/
def manifestReferenced (id : ℕ) : Bool :=
  view.any fun
    | .tag r _ i => r = repo ∧ i = id
    | .manifestReference r _ c => r = repo ∧ c = id
    | _ => false

def findManifestReview (id : ℕ) : Option (ℕ × ℕ × ℕ) :=
  view.findSome? fun
    | .manifestReview r i after count tuple =>
      if r = repo ∧ i = id then some (after, count, tuple) else none
    | _ => none

/-- `blobStore.FindByDigest`, as a test. -/
def blobExists (digest : Digest) : Bool :=
  view.any fun
    | .blob d => d = digest
    | _ => false

/-- `repositoryStore.FindBlob`, as a test: the blob exists and is linked to the repository. -/
def findRepositoryBlob (digest : Digest) : Bool :=
  blobExists view digest && view.any fun
    | .repositoryBlob r d => r = repo ∧ d = digest
    | _ => false

/-- The blob is referenced as a configuration or as a layer: what `gcBlobTaskStore.IsDangling` asks
of the two mirror tables. datastore/gcblobtask.go:209-239 -/
def blobReferenced (digest : Digest) : Bool :=
  view.any fun
    | .gcBlobConfiguration _ _ d => d = digest
    | .gcBlobLayer _ _ d => d = digest
    | _ => false

def findBlobReview (digest : Digest) : Option (ℕ × ℕ) :=
  view.findSome? fun
    | .blobReview d after count => if d = digest then some (after, count) else none
    | _ => none

variable {view : List Row} {repo : RepoKey} {digest : Digest} {id : ℕ}

theorem findManifestByDigest_eq_some {payload}
    (h : findManifestByDigest view repo digest = some (id, payload)) :
    .manifest repo id digest payload ∈ view := by
  obtain ⟨r, hr, h⟩ := List.exists_of_findSome?_eq_some h
  cases r <;> grind

theorem exists_findManifestByDigest {payload} (h : .manifest repo id digest payload ∈ view) :
    ∃ m, findManifestByDigest view repo digest = some m := by
  cases hfind : findManifestByDigest view repo digest with
  | some m => exact ⟨m, rfl⟩
  | none => simpa using List.findSome?_eq_none_iff.1 hfind _ h

theorem findTagByName_eq_some {name} (h : findTagByName view repo name = some id) :
    .tag repo name id ∈ view := by
  obtain ⟨r, hr, h⟩ := List.exists_of_findSome?_eq_some h
  cases r <;> grind

theorem findManifestReview_eq_some {id count tuple after}
    (h : findManifestReview view repo id = some (after, count, tuple)) :
    .manifestReview repo id after count tuple ∈ view := by
  obtain ⟨r, hr, h⟩ := List.exists_of_findSome?_eq_some h
  cases r <;> grind

theorem findBlobReview_eq_some {count after}
    (h : findBlobReview view digest = some (after, count)) :
    .blobReview digest after count ∈ view := by
  obtain ⟨r, hr, h⟩ := List.exists_of_findSome?_eq_some h
  cases r <;> grind

theorem manifestExists_iff :
    manifestExists view repo id ↔ ∃ digest payload, .manifest repo id digest payload ∈ view := by
  constructor
  · intro h
    obtain ⟨r, hr, h⟩ := any_eq_true.1 h
    cases r <;> grind
  · rintro ⟨digest, payload, h⟩
    exact any_eq_true.2 ⟨_, h, by simp⟩

theorem blobExists_iff : blobExists view digest ↔ .blob digest ∈ view := by
  constructor
  · intro h
    obtain ⟨r, hr, h⟩ := any_eq_true.1 h
    cases r <;> grind
  · exact fun h => any_eq_true.2 ⟨_, h, by simp⟩

theorem mem_references {id child} :
    child ∈ references view repo id ↔ .manifestReference repo id child ∈ view := by
  unfold references
  rw [mem_filterMap]
  constructor
  · rintro ⟨r, hr, h⟩
    cases r <;> grind
  · exact fun h => ⟨_, h, by simp⟩

/-! ## Writes -/

structure Env where
  settings : Settings
  now : ℕ
  serial : ℕ
  view : List Row

def noEffect : Effect Row Key := ⟨⟨[], []⟩, [], []⟩

def writes (ins del : List Row) : Effect Row Key := ⟨⟨ins, del⟩, [], []⟩

/-- Lock rows, as `FOR UPDATE` does. -/
def locks (keys : List Key) : Effect Row Key := ⟨⟨[], []⟩, keys, []⟩

/-- `ON CONFLICT DO NOTHING` over an existing row: wait for whoever is writing it. -/
def waits (keys : List Key) : Effect Row Key := ⟨⟨[], []⟩, [], keys⟩

@[simp] theorem noEffect_ins : noEffect.ins = [] := rfl
@[simp] theorem noEffect_del : noEffect.del = [] := rfl
@[simp] theorem writes_ins (ins del : List Row) : (writes ins del).ins = ins := rfl
@[simp] theorem writes_del (ins del : List Row) : (writes ins del).del = del := rfl
@[simp] theorem locks_ins (keys : List Key) : (locks keys).ins = [] := rfl
@[simp] theorem locks_del (keys : List Key) : (locks keys).del = [] := rfl
@[simp] theorem locks_lock (keys : List Key) : (locks keys).lock = keys := rfl
@[simp] theorem waits_ins (keys : List Key) : (waits keys).ins = [] := rfl
@[simp] theorem waits_del (keys : List Key) : (waits keys).del = [] := rfl

theorem view_writes_ins (ins view : List Row) :
    (writes ins []).toDelta.view view = ins ++ view := by
  simp [Delta.view, writes, filter_eq_self.2]

theorem view_writes_del (del view : List Row) :
    (writes [] del).toDelta.view view = view.filter (· ∉ del) := rfl

def isManifestReviewOf (repo : RepoKey) (ids : List ℕ) : Row → Bool
  | .manifestReview r i _ _ _ => r = repo ∧ i ∈ ids
  | _ => false

def isBlobReviewOf (digests : List Digest) : Row → Bool
  | .blobReview d _ _ => d ∈ digests
  | _ => false

variable (env : Env)

/-- The review row an upsert leaves: a new one starts counting, an old one keeps its count. -/
def Env.manifestReview (e : Event) (repo : RepoKey) (id : ℕ) : Row :=
  match findManifestReview env.view repo id with
  | some (_, count, tuple) =>
    .manifestReview repo id (env.settings.gcReviewAfter env.now e) count tuple
  | none => .manifestReview repo id (env.settings.gcReviewAfter env.now e) 0 env.serial

theorem Env.manifestReview_eq (e : Event) (repo : RepoKey) (id : ℕ) :
    ∃ count tuple, env.manifestReview e repo id =
      .manifestReview repo id (env.settings.gcReviewAfter env.now e) count tuple := by
  unfold Env.manifestReview
  split <;> exact ⟨_, _, rfl⟩

def Env.blobReview (e : Event) (digest : Digest) : Row :=
  .blobReview digest (env.settings.gcReviewAfter env.now e)
    (match findBlobReview env.view digest with
      | some (_, count) => count
      | none => 0)

/-- `INSERT INTO tags … ON CONFLICT DO UPDATE … WHERE tags.manifest_id <> excluded.manifest_id` with
the trigger `gc_track_switched_tags`. A tag that already points there is locked only. tag.go:182-205
-/
def Env.createOrUpdateTag (repo : RepoKey) (name : TagName) (id : ℕ) : Effect Row Key :=
  match findTagByName env.view repo name with
  | none => writes [.tag repo name id] []
  | some old =>
    if old = id then locks [.tag repo name]
    else writes [.tag repo name id, env.manifestReview .tagSwitch repo old]
      (.tag repo name old :: env.view.filter (isManifestReviewOf repo [old]))

/-- `DELETE FROM tags` with the trigger `gc_track_deleted_tags`. datastore/repository.go:969-984 -/
def Env.deleteTagByName (repo : RepoKey) (name : TagName) : Effect Row Key :=
  match findTagByName env.view repo name with
  | none => noEffect
  | some old =>
    if manifestExists env.view repo old then
      writes [env.manifestReview .tagDelete repo old]
        (.tag repo name old :: env.view.filter (isManifestReviewOf repo [old]))
    else writes [] [.tag repo name old]

/-- The mirror row of a configuration, unless one is there (`ON CONFLICT DO NOTHING`). -/
def Env.trackConfiguration (repo : RepoKey) (id : ℕ) (digest : Digest) : List Row :=
  if env.view.any fun
    | .gcBlobConfiguration _ i d => d = digest ∧ i = id
    | _ => false
  then [] else [.gcBlobConfiguration repo id digest]

/-- The mirror row of a layer, unless one is there (`ON CONFLICT DO NOTHING`). -/
def Env.trackLayer (repo : RepoKey) (id : ℕ) (digest : Digest) : List Row :=
  if env.view.any fun
    | .gcBlobLayer _ i d => d = digest ∧ i = id
    | _ => false
  then [] else [.gcBlobLayer repo id digest]

/-- `INSERT INTO manifests` with the triggers `gc_track_manifest_uploads` and
`gc_track_configuration_blobs`. datastore/manifest.go:253-296 -/
def Env.createManifest (repo : RepoKey) (digest : Digest) (payload : Payload) : Effect Row Key :=
  writes
    (.manifest repo env.serial digest payload ::
      .manifestReview repo env.serial (env.settings.gcReviewAfter env.now .manifestUpload) 0
        env.serial ::
      payload.configuration.toList.flatMap (env.trackConfiguration repo env.serial))
    []

/-- `INSERT INTO manifest_references … ON CONFLICT DO NOTHING`. datastore/manifest.go:299-320 -/
def Env.associateManifest (repo : RepoKey) (parent child : ℕ) : Effect Row Key :=
  if .manifestReference repo parent child ∈ env.view then
    waits [.manifestReference repo parent child]
  else writes [.manifestReference repo parent child] []

/-- The rows `DELETE FROM manifests` removes: the manifest, and what cascades from it. -/
def cascadesFrom (view : List Row) (repo : RepoKey) (id : ℕ) : Row → Bool
  | .manifest r i _ _ => r = repo ∧ i = id
  | .tag r _ i => r = repo ∧ i = id
  | .manifestReference r p _ => r = repo ∧ p = id
  | .manifestReview r i _ _ _ => r = repo ∧ i = id
  | .layer r _ i _ => r = repo ∧ i = id
  | .gcBlobLayer r l d => r = repo ∧ .layer r l id d ∈ view
  | .gcBlobConfiguration r i _ => r = repo ∧ i = id
  | _ => false

def layersOf (view : List Row) (repo : RepoKey) (id : ℕ) : List Digest :=
  view.filterMap fun
    | .layer r _ i d => if r = repo ∧ i = id then some d else none
    | _ => none

def configurationsOf (view : List Row) (repo : RepoKey) (id : ℕ) : List Digest :=
  view.filterMap fun
    | .manifest r i _ payload => if r = repo ∧ i = id then payload.configuration else none
    | _ => none

theorem mem_layersOf :
    digest ∈ layersOf view repo id ↔ ∃ layer, .layer repo layer id digest ∈ view := by
  unfold layersOf
  rw [mem_filterMap]
  constructor
  · rintro ⟨r, hr, h⟩
    cases r <;> grind
  · exact fun ⟨_, h⟩ => ⟨_, h, by simp⟩

theorem mem_configurationsOf :
    digest ∈ configurationsOf view repo id ↔
      ∃ d payload, .manifest repo id d payload ∈ view ∧ payload.configuration = some digest := by
  unfold configurationsOf
  rw [mem_filterMap]
  constructor
  · rintro ⟨r, hr, h⟩
    cases r <;> grind
  · exact fun ⟨_, _, h, hc⟩ => ⟨_, h, by simpa using hc⟩

/-- `DELETE FROM manifests` of one row, with its cascades and their triggers:
`gc_track_deleted_manifest_lists` queues the children of a list, `gc_track_deleted_layers` the
layers, then `gc_track_deleted_manifests` the configuration. `gc_track_deleted_tags` queues nothing:
the manifest is gone. datastore/manifest.go:400-420 -/
def Env.deleteManifest (repo : RepoKey) (id : ℕ) : Effect Row Key :=
  let children := references env.view repo id
  let configs := configurationsOf env.view repo id
  let layers := (layersOf env.view repo id).filter (· ∉ configs)
  writes
    (children.map (env.manifestReview .manifestListDelete repo) ++
      layers.map (env.blobReview .layerDelete) ++
      configs.map (env.blobReview .manifestDelete))
    (env.view.filter (cascadesFrom env.view repo id) ++
      env.view.filter (isManifestReviewOf repo children) ++
      env.view.filter (isBlobReviewOf (layers ++ configs)))

def Env.deleteManifestReview (repo : RepoKey) (id : ℕ) : Effect Row Key :=
  writes [] (env.view.filter (isManifestReviewOf repo [id]))

/-- `UPDATE gc_manifest_review_queue`, moving the review on. -/
def Env.postponeManifestReview (repo : RepoKey) (id : ℕ) (after : ℕ) (count : ℕ) : Effect Row Key :=
  match findManifestReview env.view repo id with
  | none => noEffect
  | some (_, _, tuple) =>
    writes [.manifestReview repo id after count tuple]
      (env.view.filter (isManifestReviewOf repo [id]))

/-- `INSERT INTO blobs … ON CONFLICT DO NOTHING` with the trigger `gc_track_blob_uploads`.
datastore/blob.go:176-208 -/
def Env.createBlob (digest : Digest) : Effect Row Key :=
  if blobExists env.view digest then waits [.blob digest]
  else writes [.blob digest, env.blobReview .blobUpload digest]
    (env.view.filter (isBlobReviewOf [digest]))

/-- `INSERT INTO repository_blobs … ON CONFLICT DO NOTHING`. datastore/repository.go:926-942 -/
def Env.linkBlob (repo : RepoKey) (digest : Digest) : Effect Row Key :=
  if .repositoryBlob repo digest ∈ env.view then waits [.repositoryBlob repo digest]
  else writes [.repositoryBlob repo digest] []

/-- datastore/repository.go:946-965 -/
def Env.unlinkBlob (repo : RepoKey) (digest : Digest) : Effect Row Key :=
  writes [] (env.view.filter (· = .repositoryBlob repo digest))

/-- `INSERT INTO layers … ON CONFLICT DO NOTHING` with the trigger `gc_track_layer_blobs`.
datastore/manifest.go:344-365 -/
def Env.associateLayerBlob (repo : RepoKey) (id : ℕ) (digest : Digest) : Effect Row Key :=
  if digest ∈ layersOf env.view repo id then waits [.layerOfManifest repo id digest]
  else writes (.layer repo env.serial id digest :: env.trackLayer repo env.serial digest) []

def Env.deleteBlobReview (digest : Digest) : Effect Row Key :=
  writes [] (env.view.filter (isBlobReviewOf [digest]))

/-- `UPDATE gc_blob_review_queue`, moving the review on. -/
def Env.postponeBlobReview (digest : Digest) (after : ℕ) (count : ℕ) : Effect Row Key :=
  match findBlobReview env.view digest with
  | none => noEffect
  | some _ => writes [.blobReview digest after count] (env.view.filter (isBlobReviewOf [digest]))

/-- The rows `DELETE FROM blobs` removes: the blob, its links and its mirror rows. Layers and
manifests do not cascade, they make the statement fail. -/
def cascadesFromBlob (digest : Digest) : Row → Bool
  | .blob d => d = digest
  | .repositoryBlob _ d => d = digest
  | .gcBlobLayer _ _ d => d = digest
  | .gcBlobConfiguration _ _ d => d = digest
  | _ => false

/-- datastore/blob.go:211-233 -/
def Env.deleteBlob (digest : Digest) : Effect Row Key :=
  writes [] (env.view.filter (cascadesFromBlob digest))

/-- The second half of `FindAndLockBefore` and `FindAndLockNBefore`: of the rows the snapshot
`found`, lock those that still match. A row inserted since is not looked at.
datastore/gcmanifesttask.go:91-152 -/
def Env.lockManifestReviews (repo : RepoKey) (before : ℕ) (found : List (ℕ × ℕ)) : Effect Row Key :=
  locks (env.view.filterMap fun
    | .manifestReview r i after _ tuple =>
      if r = repo ∧ (i, tuple) ∈ found ∧ after < before then some (.manifestReview repo i)
      else none
    | _ => none)

inductive Stmt where
  | lockManifestReviews (repo : RepoKey) (before : ℕ) (found : List (ℕ × ℕ))
  | createOrUpdateTag (repo : RepoKey) (name : TagName) (id : ℕ)
  | deleteTagByName (repo : RepoKey) (name : TagName)
  | createManifest (repo : RepoKey) (digest : Digest) (payload : Payload)
  | associateManifest (repo : RepoKey) (parent child : ℕ)
  | deleteManifest (repo : RepoKey) (digest : Digest)
  | deleteManifestByID (repo : RepoKey) (id : ℕ)
  | lockManifestReview (repo : RepoKey) (id : ℕ)
  | deleteManifestReview (repo : RepoKey) (id : ℕ)
  | postponeManifestReview (repo : RepoKey) (id : ℕ) (after : ℕ) (count : ℕ)
  | createBlob (digest : Digest)
  | linkBlob (repo : RepoKey) (digest : Digest)
  | unlinkBlob (repo : RepoKey) (digest : Digest)
  | associateLayerBlob (repo : RepoKey) (id : ℕ) (digest : Digest)
  | deleteBlob (digest : Digest)
  | lockBlobReview (digest : Digest)
  | deleteBlobReview (digest : Digest)
  | postponeBlobReview (digest : Digest) (after : ℕ) (count : ℕ)

def Stmt.effect : Stmt → Effect Row Key
  | .lockManifestReviews repo before found => env.lockManifestReviews repo before found
  | .createOrUpdateTag repo name id => env.createOrUpdateTag repo name id
  | .deleteTagByName repo name => env.deleteTagByName repo name
  | .createManifest repo digest payload => env.createManifest repo digest payload
  | .associateManifest repo parent child => env.associateManifest repo parent child
  | .deleteManifest repo digest =>
    match findManifestByDigest env.view repo digest with
    | none => noEffect
    | some (id, _) => env.deleteManifest repo id
  | .deleteManifestByID repo id => env.deleteManifest repo id
  | .lockManifestReview repo id => locks [.manifestReview repo id]
  | .deleteManifestReview repo id => env.deleteManifestReview repo id
  | .postponeManifestReview repo id after count => env.postponeManifestReview repo id after count
  | .createBlob digest => env.createBlob digest
  | .linkBlob repo digest => env.linkBlob repo digest
  | .unlinkBlob repo digest => env.unlinkBlob repo digest
  | .associateLayerBlob repo id digest => env.associateLayerBlob repo id digest
  | .deleteBlob digest => env.deleteBlob digest
  | .lockBlobReview digest => locks [.blobReview digest]
  | .deleteBlobReview digest => env.deleteBlobReview digest
  | .postponeBlobReview digest after count => env.postponeBlobReview digest after count

def affected (e : Effect Row Key) : Bool := !e.ins.isEmpty || !e.del.isEmpty

end ContainerRegistry.Model
