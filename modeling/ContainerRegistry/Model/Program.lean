import ContainerRegistry.Model.Statements

/-!
# The API calls and the garbage collection workers as one system

Every call is a session that moves from one program point (`Proc`) to the next. `step` interleaves
any number of sessions with each other, with the clock and with failures.

The four transactions that lock review records before they write (`dbTagManifest`, `dbDeleteTag`,
`dbPutManifestList`, `dbDeleteManifest`) share one shape, `Guarded`. Any call may fail at any point,
which rolls its transaction back.
-/

namespace ContainerRegistry.Model

open Library

/-- `manifestTagGCReviewWindow`, `manifestListCreateGCReviewWindow`, `tagDeleteGCReviewWindow`
and `manifestDeleteGCReviewWindow`. -/
def reviewWindow : ℕ := hour

/-- `manifestTagGCLockTimeout` and its three siblings. -/
def lockTimeout : ℕ := 5 * second

/-- What a number of nanoseconds is as a `time.Duration`, a signed 64 bit number. -/
def asDuration (n : Int) : Int :=
  (n + 9223372036854775808) % 18446744073709551616 - 9223372036854775808

/-- worker/worker.go:126-145 -/
def exponentialBackoff (i : Int) : Int :=
  let base := 300000000000
  let max := 86400000000000
  if i < 0 then base
  else if 30 < i then max
  else
    let backoff := asDuration (base * (1 <<< i.toNat : ℕ))
    if max < backoff then max else backoff

/-- The `review_after` of a task that is postponed. The database keeps microseconds; a time before
the start of the clock is as good as the start. -/
def postponed (reviewAfter reviewCount : ℕ) : ℕ :=
  (reviewAfter + exponentialBackoff reviewCount / 1000).toNat

inductive Err where
  | manifestNotFound
  | tagUnknown
  | refManifestNotFound
  | selfReference
  | emptyList
  | manifestReferencedInList
  | manifestVerification
  | blobNotFound
  | blobUnknown
  | taskNotFound
  | reviewFailed
  | storage
  | database
  deriving DecidableEq, Repr

inductive Result where
  | ok
  | error (e : Err)
  deriving DecidableEq, Repr

/-- The transactions that lock review records first, with what they looked up before. -/
inductive Guarded where
  | tag (name : TagName) (id : ℕ)
  | untag (name : TagName) (id : ℕ)
  | list (digest : Digest) (members : List Digest) (ids : List ℕ)
  | delete (digest : Digest) (list : Option ℕ) (children : List ℕ)
  deriving DecidableEq, Repr

/-- The manifests whose review records the transaction locks. -/
def Guarded.ids : Guarded → List ℕ
  | .tag _ id => [id]
  | .untag _ id => [id]
  | .list _ _ ids => ids
  | .delete _ _ children => children

/-- The manifests the transaction adds a reference to. -/
def Guarded.targets : Guarded → List ℕ
  | .tag _ id => [id]
  | .list _ _ ids => ids
  | _ => []

structure Image where
  repo : RepoKey
  digest : Digest
  config : Digest
  layers : List Layer
  deriving DecidableEq, Repr

def Image.references (i : Image) : List Layer := ⟨i.config, .other, .absent⟩ :: i.layers

/-- What validation accepts of one descriptor, given whether its blob is known. schema2.go:46-80,
oci.go:46-84 -/
def Layer.accepted (l : Layer) (known : Bool) : Bool :=
  match l.mediaType, l.urls with
  | .foreign, urls => urls = .allowed
  | .oci, .absent => known
  | .oci, urls => urls = .allowed
  | .other, .absent => known
  | .other, _ => true

inductive ImageStage where
  | validate (todo : List Layer) (valid : Bool)
  | config
  | payload
  | find
  | createBegin
  | create
  | createCommit (id : ℕ)
  | layers (id : ℕ) (todo : List Layer)
  | associateBegin (id : ℕ) (digest : Digest) (todo : List Layer)
  | associate (id : ℕ) (digest : Digest) (todo : List Layer)
  | associateCommit (id : ℕ) (digest : Digest) (todo : List Layer)
  deriving DecidableEq, Repr

/-- Program points of a blob upload, from the storage commit on. -/
inductive UploadStage where
  | storage
  | begin
  | create
  | find
  | link
  | commit
  deriving DecidableEq, Repr

/-- Program points of a call that runs one statement of its own: a cross repository mount and
the unlinking of a blob. -/
inductive LinkStage where
  | begin
  | exec
  | commit (found : Bool)
  deriving DecidableEq, Repr

structure ManifestTask where
  repo : RepoKey
  id : ℕ
  reviewAfter : ℕ
  reviewCount : ℕ
  deriving DecidableEq, Repr

structure BlobTask where
  digest : Digest
  reviewAfter : ℕ
  reviewCount : ℕ
  deriving DecidableEq, Repr

inductive ManifestStage where
  | dangling
  | delete
  | forget
  | postpone
  | commit (r : Result)
  deriving DecidableEq, Repr

inductive BlobStage where
  | dangling
  | remove
  | find
  | delete
  | forget
  | postpone
  | commit (r : Result)
  deriving DecidableEq, Repr

inductive Proc where
  | idle
  | done (r : Result)
  | abort (r : Result)
  | tagFind (repo : RepoKey) (name : TagName) (digest : Digest)
  | untagFind (repo : RepoKey) (name : TagName)
  | listFind (repo : RepoKey) (digest : Digest) (members : List Digest)
  | listMembers (repo : RepoKey) (digest : Digest) (members todo : List Digest) (ids : List ℕ)
  | deleteFind (repo : RepoKey) (digest : Digest)
  | begin (repo : RepoKey) (g : Guarded)
  | references (repo : RepoKey) (digest : Digest) (list : ℕ)
  | now (repo : RepoKey) (g : Guarded)
  | select (repo : RepoKey) (g : Guarded) (since : ℕ)
  | lock (repo : RepoKey) (g : Guarded) (since : ℕ) (found : List (ℕ × ℕ))
  | body (repo : RepoKey) (g : Guarded) (since : ℕ)
  | associate (repo : RepoKey) (g : Guarded) (since : ℕ) (list : ℕ) (todo : List ℕ)
  | commit (repo : RepoKey) (g : Guarded) (since : ℕ)
  | manifestWorker
  | manifestNext
  | manifestTask (task : ManifestTask) (st : ManifestStage)
  | image (i : Image) (st : ImageStage)
  | upload (repo : RepoKey) (digest : Digest) (st : UploadStage)
  | mountFind (src dst : RepoKey) (digest : Digest)
  | mount (src dst : RepoKey) (digest : Digest) (st : LinkStage)
  | unlink (repo : RepoKey) (digest : Digest) (st : LinkStage)
  | blobWorker
  | blobNext
  | blobTask (task : BlobTask) (st : BlobStage)
  deriving DecidableEq, Repr

inductive Call where
  | tagManifest (repo : RepoKey) (name : TagName) (digest : Digest)
  | deleteTag (repo : RepoKey) (name : TagName)
  | putManifestList (repo : RepoKey) (digest : Digest) (members : List Digest)
  | deleteManifest (repo : RepoKey) (digest : Digest)
  | putImage (i : Image)
  | uploadBlob (repo : RepoKey) (digest : Digest)
  | mountBlob (src dst : RepoKey) (digest : Digest)
  | deleteBlob (repo : RepoKey) (digest : Digest)
  | manifestWorker
  | blobWorker
  deriving DecidableEq, Repr

def Call.entry : Call → Proc
  | .tagManifest repo name digest => .tagFind repo name digest
  | .deleteTag repo name => .untagFind repo name
  | .putManifestList repo digest members => .listFind repo digest members
  | .deleteManifest repo digest => .deleteFind repo digest
  | .putImage i => .image i (.validate i.references true)
  | .uploadBlob repo digest => .upload repo digest .storage
  | .mountBlob src dst digest => .mountFind src dst digest
  | .deleteBlob repo digest => .unlink repo digest .begin
  | .manifestWorker => .manifestWorker
  | .blobWorker => .blobWorker

/-- The next request runs under the deadline of its context. The commits of `dbTagManifest`,
`dbPutManifestList` and `dbDeleteManifest` do not: their transaction was begun before the
deadline was set. -/
def Proc.timed : Proc → Bool
  | .begin _ (.untag _ _) | .now _ (.untag _ _) => true
  | .select _ _ _ | .lock _ _ _ _ => true
  | .body _ (.tag _ _) _ | .body _ (.untag _ _) _ => true
  | .commit _ (.untag _ _) _ => true
  | .manifestWorker | .manifestNext | .manifestTask _ _ => true
  | .blobWorker | .blobNext | .blobTask _ _ => true
  | _ => false

/-- A session: its program point, `now()` of its transaction and the deadline of its
context. -/
structure Session where
  proc : Proc
  started : ℕ
  deadline : ℕ

/-- The state of the system: the clock, the id sequence, the database, the digests that have a
data file in storage, and the sessions. -/
structure State where
  clock : ℕ
  serial : ℕ
  db : Database
  files : List Digest
  sess : ℕ → Session

inductive Req where
  | stuck
  | goto (p : Proc)
  | arm (timeout : ℕ) (p : Proc)
  | begin (p : Proc)
  | exec (q : Stmt) (next : Bool → Proc) (violation : Err)
  | commit (p : Proc)
  | finish (r : Result)
  | store (digest : Digest) (p : Proc)
  | remove (digest : Digest) (p : Proc)

/-- The review records a transaction locks, as its snapshot shows them. -/
def findReviewsBefore (view : List Row) (repo : RepoKey) (ids : List ℕ) (before : ℕ) :
    List (ℕ × ℕ) :=
  view.filterMap fun
    | .manifestReview r i after _ tuple =>
      if r = repo ∧ i ∈ ids ∧ after < before then some (i, tuple) else none
    | _ => none

/-- The write a guarded transaction is for. `DELETE … RETURNING` nothing is an error, and a violated
foreign key is reported under the name the handlers give it. handlers/manifests.go:715-733,
971-1008, 1150-1161; handlers/tags.go:215-229 -/
def Guarded.body (g : Guarded) (serial : ℕ) (repo : RepoKey) (since : ℕ) : Req :=
  match g with
  | .tag name id =>
    .exec (.createOrUpdateTag repo name id) (fun _ => .commit repo g since) .manifestNotFound
  | .untag name _ =>
    .exec (.deleteTagByName repo name)
      (fun found => if found then .commit repo g since else .abort (.error .tagUnknown))
      .database
  | .list digest members ids =>
    .exec (.createManifest repo digest (.list members))
      (fun _ => .associate repo g since serial ids) .database
  | .delete digest _ _ =>
    .exec (.deleteManifest repo digest)
      (fun found => if found then .commit repo g since else .abort (.error .manifestNotFound))
      .manifestReferencedInList

/-- manifestworker.go:102-185 -/
def manifestRequest (view : List Row) (task : ManifestTask) : ManifestStage → Req
  | .dangling =>
    .goto (.manifestTask task
      (if manifestReferenced view task.repo task.id then .forget else .delete))
  | .delete =>
    .exec (.deleteManifestByID task.repo task.id) (fun _ => .manifestTask task (.commit .ok))
      .manifestReferencedInList
  | .forget =>
    .exec (.deleteManifestReview task.repo task.id)
      (fun found =>
        if found then .manifestTask task (.commit .ok) else .abort (.error .taskNotFound))
      .database
  | .postpone =>
    .exec (.postponeManifestReview task.repo task.id
        (postponed task.reviewAfter task.reviewCount) (task.reviewCount + 1))
      (fun found =>
        if found then .manifestTask task (.commit (.error .reviewFailed))
        else .abort (.error .taskNotFound))
      .database
  | .commit r => .commit (.done r)

/-- The data file goes first. blobworker.go:122-223 -/
def blobRequest (view : List Row) (files : List Digest) (task : BlobTask) : BlobStage → Req
  | .dangling =>
    .goto (.blobTask task (if blobReferenced view task.digest then .forget else .remove))
  | .remove =>
    if task.digest ∈ files then .remove task.digest (.blobTask task .find)
    else .goto (.blobTask task .delete)
  | .find => .goto (.blobTask task (if blobExists view task.digest then .delete else .forget))
  | .delete => .exec (.deleteBlob task.digest) (fun _ => .blobTask task .forget) .database
  | .forget =>
    .exec (.deleteBlobReview task.digest)
      (fun found =>
        if found then .blobTask task (.commit .ok) else .abort (.error .taskNotFound))
      .database
  | .postpone =>
    .exec (.postponeBlobReview task.digest
        (postponed task.reviewAfter task.reviewCount) (task.reviewCount + 1))
      (fun found =>
        if found then .blobTask task (.commit (.error .reviewFailed))
        else .abort (.error .taskNotFound))
      .database
  | .commit r => .commit (.done r)

/-- `dbPutManifestSchema2`, `dbPutManifestOCI` and `dbPutManifestOCIOrSchema2`: the manifest and
each layer are inserted by statements of their own. handlers/manifests.go:736-847 -/
def imageRequest (isCache : Bool) (serial : ℕ) (view : List Row) (files : List Digest)
    (i : Image) : ImageStage → Req
  | .validate [] valid =>
    if valid then .goto (.image i .config) else .finish (.error .manifestVerification)
  | .validate (l :: todo) valid =>
    if isCache then .goto (.image i .config)
    else .goto (.image i (.validate todo
      (valid && l.accepted (findRepositoryBlob view i.repo l.digest))))
  | .config =>
    if findRepositoryBlob view i.repo i.config then .goto (.image i .payload)
    else .finish (.error .blobNotFound)
  | .payload =>
    if i.config ∈ files then .goto (.image i .find) else .finish (.error .blobUnknown)
  | .find =>
    match findManifestByDigest view i.repo i.digest with
    | some _ => .finish .ok
    | none => .goto (.image i .createBegin)
  | .createBegin => .begin (.image i .create)
  | .create =>
    .exec (.createManifest i.repo i.digest (.image i.config i.layers))
      (fun _ => .image i (.createCommit serial)) .database
  | .createCommit id => .commit (.image i (.layers id i.layers))
  | .layers _ [] => .finish .ok
  | .layers id (l :: todo) =>
    if findRepositoryBlob view i.repo l.digest then
      .goto (.image i (.associateBegin id l.digest todo))
    else .finish (.error .blobNotFound)
  | .associateBegin id digest todo => .begin (.image i (.associate id digest todo))
  | .associate id digest todo =>
    .exec (.associateLayerBlob i.repo id digest)
      (fun _ => .image i (.associateCommit id digest todo)) .database
  | .associateCommit id _ todo => .commit (.image i (.layers id todo))

/-- `PutBlobUploadComplete` from the storage commit on, and `dbPutBlobUploadComplete`.
blobupload.go:194-229, 256-310 -/
def uploadRequest (view : List Row) (repo : RepoKey) (digest : Digest) : UploadStage → Req
  | .storage => .store digest (.upload repo digest .begin)
  | .begin => .begin (.upload repo digest .create)
  | .create =>
    .exec (.createBlob digest)
      (fun created => .upload repo digest (if created then .link else .find)) .database
  | .find =>
    if blobExists view digest then .goto (.upload repo digest .link)
    else .finish (.error .database)
  | .link => .exec (.linkBlob repo digest) (fun _ => .upload repo digest .commit) .database
  | .commit => .commit (.done .ok)

/-- What session `t` asks for at its program point. `pick` is the review record `Next` comes up
with: any that is due and not locked, or none. handlers/manifests.go:677-734, 901-1008, 1087-1164;
handlers/tags.go:169-230; blobupload.go:73-95; handlers/blob.go:132-158 -/
def request (c : Settings) (s : State) (t : ℕ) (pick : Option Key) : Req :=
  let view := s.db.view t
  match (s.sess t).proc with
  | .idle | .done _ => .stuck
  | .abort r => .finish r
  | .tagFind repo name digest =>
    match findManifestByDigest view repo digest with
    | none => .finish (.error .manifestNotFound)
    | some (id, _) => .goto (.begin repo (.tag name id))
  | .untagFind repo name =>
    match findTagByName view repo name with
    | none => .finish (.error .tagUnknown)
    | some id => .arm lockTimeout (.begin repo (.untag name id))
  | .listFind repo digest members =>
    match findManifestByDigest view repo digest with
    | some _ => .finish .ok
    | none => .goto (.listMembers repo digest members members [])
  | .listMembers repo digest members [] ids => .goto (.begin repo (.list digest members ids))
  | .listMembers repo digest members (d :: todo) ids =>
    match findManifestByDigest view repo d with
    | none => .finish (.error .manifestNotFound)
    | some (id, _) => .goto (.listMembers repo digest members todo (ids ++ [id]))
  | .deleteFind repo digest =>
    match findManifestByDigest view repo digest with
    | none => .finish (.error .manifestNotFound)
    | some (id, payload) =>
      .goto (.begin repo (.delete digest (if payload.isList then some id else none) []))
  | .begin repo (.delete digest (some id) _) => .begin (.references repo digest id)
  | .begin repo (.delete digest none children) =>
    .begin (.body repo (.delete digest none children) s.clock)
  | .begin repo g => .begin (.now repo g)
  | .references repo digest id =>
    match references view repo id with
    | [] => .goto (.body repo (.delete digest (some id) []) s.clock)
    | children => .goto (.now repo (.delete digest (some id) children))
  | .now repo (.untag name id) => .goto (.select repo (.untag name id) s.clock)
  | .now repo g => .arm lockTimeout (.select repo g s.clock)
  | .select repo g since =>
    -- `manifest_id IN ()` is not a statement
    if g.ids = [] then .finish (.error .emptyList)
    else .goto (.lock repo g since (findReviewsBefore view repo g.ids (since + reviewWindow)))
  | .lock repo g since found =>
    .exec (.lockManifestReviews repo (since + reviewWindow) found)
      (fun _ => .body repo g since) .database
  | .body repo g since => g.body s.serial repo since
  | .associate repo g since _ [] => .goto (.commit repo g since)
  | .associate repo g since list (id :: todo) =>
    if list = id then .finish (.error .selfReference)
    else .exec (.associateManifest repo list id) (fun _ => .associate repo g since list todo)
      .refManifestNotFound
  | .commit _ _ _ => .commit (.done .ok)
  | .manifestWorker => .begin .manifestNext
  | .manifestNext =>
    match pick with
    | none => .finish .ok
    | some (.manifestReview repo id) =>
      match findManifestReview view repo id with
      | some (after, count, _) =>
        if after < (s.sess t).started then
          .exec (.lockManifestReview repo id)
            (fun _ => .manifestTask ⟨repo, id, after, count⟩ .dangling) .database
        else .stuck
      | none => .stuck
    | some _ => .stuck
  | .manifestTask task st => manifestRequest view task st
  | .image i st => imageRequest c.isCache s.serial view s.files i st
  | .upload repo digest st => uploadRequest view repo digest st
  | .mountFind src dst digest =>
    if findRepositoryBlob view src digest then .goto (.mount src dst digest .begin)
    else .finish (.error .blobNotFound)
  | .mount src dst digest .begin => .begin (.mount src dst digest .exec)
  | .mount src dst digest .exec =>
    .exec (.linkBlob dst digest) (fun _ => .mount src dst digest (.commit true)) .database
  | .mount _ _ _ (.commit _) => .commit (.done .ok)
  | .unlink repo digest .begin => .begin (.unlink repo digest .exec)
  | .unlink repo digest .exec =>
    .exec (.unlinkBlob repo digest) (fun found => .unlink repo digest (.commit found)) .database
  | .unlink _ _ (.commit found) =>
    .commit (.done (if found then .ok else .error .blobUnknown))
  | .blobWorker => .begin .blobNext
  | .blobNext =>
    match pick with
    | none => .finish .ok
    | some (.blobReview digest) =>
      match findBlobReview view digest with
      | some (after, count) =>
        if after < (s.sess t).started then
          .exec (.lockBlobReview digest)
            (fun _ => .blobTask ⟨digest, after, count⟩ .dangling) .database
        else .stuck
      | none => .stuck
    | some _ => .stuck
  | .blobTask task st => blobRequest view s.files task st

def State.jump (s : State) (t : ℕ) (p : Proc) : State :=
  { s with sess := Function.update s.sess t { s.sess t with proc := p } }

def State.serve (c : Settings) (s : State) (t : ℕ) : Req → Option State
  | .stuck => none
  | .goto p => some (s.jump t p)
  | .arm timeout p =>
    some { s with
      sess := Function.update s.sess t ⟨p, (s.sess t).started, s.clock + timeout⟩ }
  | .begin p =>
    some { s with sess := Function.update s.sess t ⟨p, s.clock, (s.sess t).deadline⟩ }
  | .exec q next violation =>
    let e := q.effect ⟨c, (s.sess t).started, s.serial, s.db.view t⟩
    match s.db.write schema t e with
    | .blocked => none
    | .violation => some { s.jump t (.done (.error violation)) with db := s.db.rollback t }
    | .done db => some { s.jump t (next (affected e)) with db := db, serial := s.serial + 1 }
  | .commit p => some { s.jump t p with db := s.db.commit t }
  | .finish r => some { s.jump t (.done r) with db := s.db.rollback t }
  | .store digest p => some { s.jump t p with files := digest :: s.files }
  | .remove digest p => some { s.jump t p with files := s.files.filter (· ≠ digest) }

inductive Action where
  | tick (d : ℕ)
  | start (t : ℕ) (call : Call)
  | go (t : ℕ) (pick : Option Key)
  | fail (t : ℕ)
  | reviewFails (t : ℕ)
  | storageFails (t : ℕ) (removed : Bool)
  deriving DecidableEq, Repr

def Proc.free : Proc → Bool
  | .idle | .done _ => true
  | _ => false

/-- One step of the system. `reviewFails` is an error of `IsDangling` that leaves the
transaction usable; `storageFails` an error of the storage delete, which may or may not have
removed the file. -/
def step (c : Settings) (s : State) : Action → Option State
  | .tick d => some { s with clock := s.clock + d }
  | .start t call =>
    if (s.sess t).proc.free then
      some { s with
        sess := Function.update s.sess t ⟨call.entry, s.clock, s.clock + c.txTimeout⟩ }
    else none
  | .go t pick =>
    if (s.sess t).proc.timed ∧ (s.sess t).deadline ≤ s.clock then none
    else s.serve c t (request c s t pick)
  | .fail t =>
    if (s.sess t).proc.free then none
    else some { s.jump t (.done (.error .database)) with db := s.db.rollback t }
  | .reviewFails t =>
    match (s.sess t).proc with
    | .manifestTask task .dangling => some (s.jump t (.manifestTask task .postpone))
    | .blobTask task .dangling => some (s.jump t (.blobTask task .postpone))
    | _ => none
  | .storageFails t removed =>
    match (s.sess t).proc with
    | .blobTask task .remove =>
      some { s.jump t (.blobTask task .postpone) with
        files := if removed then s.files.filter (· ≠ task.digest) else s.files }
    | _ => none

def init : State := ⟨0, 0, Store.empty, [], fun _ => ⟨.idle, 0, 0⟩⟩

/-! ## Playing calls -/

def gos (t n : ℕ) : List Action := List.replicate n (.go t none)

def calls (t : ℕ) (call : Call) (n : ℕ) : List Action := .start t call :: gos t n

namespace Sample

def repo : RepoKey := ⟨1, 1⟩

def config : Digest := ⟨.sha256, 1⟩

def layer : Digest := ⟨.sha256, 3⟩

def image : Image := ⟨repo, ⟨.sha256, 2⟩, config, []⟩

def layered : Image := ⟨repo, ⟨.sha256, 4⟩, config, [⟨layer, .other, .absent⟩]⟩

/-- An image whose layer is to be fetched from elsewhere. Validation asks for no blob. -/
def foreign : Image := ⟨repo, ⟨.sha256, 4⟩, config, [⟨layer, .foreign, .allowed⟩]⟩

/-- The image is pushed, which gives its manifest the id 2, and tagged as `1`. -/
def push : List Action :=
  calls 1 (.uploadBlob repo config) 5 ++ calls 1 (.putImage image) 9 ++
    calls 1 (.tagManifest repo 1 image.digest) 7

/-- Session 3, a manifest worker, takes up the review of the image and gets `n` steps on. -/
def review (n : ℕ) : List Action :=
  calls 3 .manifestWorker 1 ++ .go 3 (some (.manifestReview repo 2)) :: gos 3 n

end Sample

end ContainerRegistry.Model
