import ContainerRegistry.Model.Storage

/-!
# The offline garbage collector

`MarkAndSweep` of `garbagecollect.go`, over three walks, each with its own schedule.

The sets shared by goroutines only grow while they are filled, and none is read before that has
ended, so a repository is marked in one step of the outer walk. The order of an errgroup only
decides which of its errors is returned. `MaxParallelManifestGets` only bounds the number of
goroutines and is left out, as are the sizes, which are logged.

A `Phase` tells a request apart from others with the same path. Delete requests of the sweep do not
fail.
-/

namespace ContainerRegistry.Model

open Library

/-! ## Requests -/

inductive Phase where
  | repositories
  | tags (name : Path)
  | revisions (name : Path)
  | conform (name : Path) (link : Path)
  | tagged (name : Path) (digest : Digest)
  | referenced (name : Path) (digest : Digest)
  | blobs
  deriving DecidableEq, Repr

abbrev Faults := Phase → Request Segment → Bool

def noFaults : Faults := fun _ _ => false

/-- garbagecollect.go:21-26 -/
structure GCOpts where
  dryRun : Bool
  removeUntagged : Bool
  deriving DecidableEq, Repr

/-- A manifest to delete, with the tags whose index may name it. garbagecollect.go:28-33 -/
structure ManifestDel where
  name : Path
  digest : Digest
  tags : List Segment
  deriving DecidableEq, Repr

/-- What marking a repository adds to the state shared by all: a mark, or a manifest to
delete. -/
inductive MarkEvent where
  | mark (d : Digest)
  | eligible (m : ManifestDel)
  deriving DecidableEq, Repr

def MarkEvent.marked : MarkEvent → Option Digest
  | .mark d => some d
  | .eligible _ => none

def MarkEvent.manifestDel : MarkEvent → Option ManifestDel
  | .mark _ => none
  | .eligible m => some m

/-- A tag without a current link is passed over. cachedtagstore.go:45-75 -/
def readTags (fails : Request Segment → Bool) (S : Storage) (name : Path) :
    List Segment → Except StoreError (List (Segment × Digest))
  | [] => .ok []
  | tag :: tags =>
    match readlink fails S (pathFor (.manifestTagCurrent name tag)) with
    | .error (.pathNotFound _) => readTags fails S name tags
    | .error e => .error e
    | .ok d => (readTags fails S name tags).map ((tag, d) :: ·)

/-- A repository without a tags directory has no tags. cachedtagstore.go:37-76, tagstore.go:25-51,
garbagecollect.go:139-151 -/
def primeTags (fails : Request Segment → Bool) (S : Storage) (name : Path) :
    Except StoreError (List (Segment × Digest)) :=
  if fails (.list (pathFor (.manifestTags name)) 0) then
    .error (.failed (.list (pathFor (.manifestTags name)) 0))
  else if S.isDir (pathFor (.manifestTags name)) then
    readTags fails S name (S.children (pathFor (.manifestTags name)))
  else .ok []

/-- A link that does not parse, or that names no blob of the repository, is passed over.
linkedblobstore.go:251-293 -/
def ingestLink (faults : Faults) (S : Storage) (name : Path) :
    WalkFn Segment Digest Failure := fun p isDir =>
  if isDir then some ([], .proceed)
  else if p.getLast? ≠ some .link then some ([], .proceed)
  else match readlink (faults (.revisions name)) S p with
    | .error (.other (.link .invalidFormat)) => some ([], .proceed)
    | .error e => some ([], .fail e)
    | .ok d =>
      match linkedStat (faults (.conform name p)) S name d with
      | .error (.other .blobUnknown) => some ([], .proceed)
      | .error e => some ([], .fail e)
      | .ok _ => some ([d], .proceed)

/-- manifeststore.go:150-159, linkedblobstore.go:246-294 -/
def enumerateManifests (w : Walker) (faults : Faults) (S : Storage) (name : Path)
    (turns : List Turn) : Option (Walked Segment Digest Failure) :=
  walkParallel w S.toObjectTree (faults (.revisions name)) (ingestLink faults S name)
    (pathFor (.manifestRevisions name)) turns

/-! ## Marking -/

/-- Each in its own goroutine. -/
def getManifests (fails : Digest → Request Segment → Bool) (S : Storage) (name : Path) :
    List Digest → Except StoreError (List (Digest × Manifest))
  | [] => .ok []
  | d :: ds =>
    match getManifest (fails d) S name d with
    | .error e => .error e
    | .ok m => (getManifests fails S name ds).map ((d, m) :: ·)

def Manifest.members : Manifest → List Digest
  | .list manifests => manifests
  | .image _ _ => []

def Manifest.blobs : Manifest → List Digest
  | .list _ => []
  | .image config layers => (Manifest.image config layers).references

/-- garbagecollect.go:273-325 -/
def markReferenced (faults : Faults) (S : Storage) (name : Path) (events : List MarkEvent)
    (referenced : List Digest) : List MarkEvent × Option StoreError :=
  match getManifests (fun d => faults (.referenced name d)) S name referenced with
  | .error _ => (events ++ referenced.map .mark, some (.other .markingReferencedManifests))
  | .ok ms => (events ++ referenced.map .mark ++
      (ms.flatMap fun m => m.2.references).map .mark, none)

/-- The members of lists become referenced manifests. Untagged manifests that are not referenced are
to be deleted. garbagecollect.go:203-271 -/
def markTagged (faults : Faults) (S : Storage) (name : Path) (tags : List (Segment × Digest))
    (tagged untagged : List Digest) : List MarkEvent × Option StoreError :=
  match getManifests (fun d => faults (.tagged name d)) S name tagged with
  | .error _ => (tagged.map .mark, some (.other .markingTaggedManifests))
  | .ok ms =>
    markReferenced faults S name
      (tagged.map .mark ++ (ms.flatMap fun m => m.2.blobs).map .mark ++
        (untagged.filter fun d => d ∉ ms.flatMap fun m => m.2.members).map fun d =>
          .eligible ⟨name, d, tags.map Prod.fst⟩)
      (ms.flatMap fun m => m.2.members).dedup

def markManifests (faults : Faults) (opts : GCOpts) (S : Storage) (name : Path)
    (tags : List (Segment × Digest)) (found : List Digest) : List MarkEvent × Option StoreError :=
  if opts.removeUntagged then
    markTagged faults S name tags
      (found.filter fun d => tags.any fun t => t.2 = d).dedup
      (found.filter fun d => !tags.any fun t => t.2 = d).dedup
  else markReferenced faults S name [] found.dedup

/-- Missing paths are no reason to stop: the manifests found so far are marked.
garbagecollect.go:101-328 -/
def markRepository (w : Walker) (faults : Faults) (opts : GCOpts) (S : Storage)
    (turns : List Turn) (name : Path) : Option (List MarkEvent × Option StoreError) :=
  if validName name then
    match if opts.removeUntagged then primeTags (faults (.tags name)) S name else .ok [] with
    | .error _ => some ([], some (.other .retrievingTags))
    | .ok tags =>
      (enumerateManifests w faults S name turns).map fun r =>
        if r.error.all WalkError.onlyPathNotFound then
          markManifests faults opts S name tags r.effects
        else ([], some (.other .enumeratingManifests))
  else some ([], some (.other .parsingRepoName))

/-- The `_layers` directory shows a repository, and no directory that starts with an underscore is
entered. catalog.go:136-160, catalog.go:58-72 -/
def handleRepository (fn : Path → Option (List MarkEvent × Option StoreError)) :
    WalkFn Segment MarkEvent Failure := fun p _ =>
  match (p.drop (pathFor .repositoriesRoot).length).getLast? with
  | some .layers =>
    (fn (p.drop (pathFor .repositoriesRoot).length).dropLast).map fun r =>
      (r.1, match r.2 with | some e => .fail e | none => .skip)
  | some c => some ([], if c.special then .skip else .proceed)
  | none => some ([], .proceed)

/-! ## Sweeping -/

/-- A blob without a mark is to be deleted. blobstore.go:98-120, garbagecollect.go:349-362 -/
def ingestBlob (marked : List Digest) : WalkFn Segment Digest Failure := fun p isDir =>
  if isDir then some ([], .proceed)
  else if p.getLast? ≠ some .data then some ([], .proceed)
  else match digestFromPath p with
    | none => some ([], .fail (.other .digest))
    | some d => some (if d ∈ marked then [] else [d], .proceed)

/-- The link files of a manifest to delete: its revision link and its entry in the index of
every tag. -/
def ManifestDel.links (m : ManifestDel) : List Path :=
  pathFor (.manifestRevisionLink m.name m.digest) ::
    m.tags.map fun t => pathFor (.manifestTagIndexEntryLink m.name t m.digest)

def maxBatchSize : ℕ := 100

/-- vacuum.go:98-155, vacuum.go:157-197 -/
def removeManifests (S : Storage) : ℕ → List ManifestDel → Storage
  | 0, _ => S
  | batches + 1, mm =>
    removeManifests (S.remove ((mm.take maxBatchSize).flatMap ManifestDel.links)) batches
      (mm.drop maxBatchSize)

/-- vacuum.go:61-96 -/
def removeBlobs (S : Storage) (dgsts : List Digest) : Storage :=
  S.remove (dgsts.map fun d => pathFor (.blobData d))

/-- Manifests in batches, then blobs. garbagecollect.go:380-401 -/
def sweep (S : Storage) (dels : List ManifestDel) (dgsts : List Digest) : Storage :=
  removeBlobs (removeManifests S ((dels.length + maxBatchSize - 1) / maxBatchSize) dels) dgsts

/-! ## The collector -/

/-- The schedules of the walks: of the repositories root, of the revision links of each
repository, and of the blob store. -/
structure Schedule where
  repositories : List Turn
  revisions : Path → List Turn
  blobs : List Turn

inductive GCError where
  | markingBlobs
  | enumeratingBlobs
  deriving DecidableEq, Repr

structure Collected where
  storage : Storage
  marked : List Digest
  error : Option GCError

def markRepositories (w : Walker) (faults : Faults) (opts : GCOpts) (sched : Schedule)
    (S : Storage) : Option (Walked Segment MarkEvent Failure) :=
  walkParallel w S.toObjectTree (faults .repositories)
    (handleRepository fun name => markRepository w faults opts S (sched.revisions name) name)
    (pathFor .repositoriesRoot) sched.repositories

def enumerateBlobs (w : Walker) (faults : Faults) (sched : Schedule) (S : Storage)
    (marked : List Digest) : Option (Walked Segment Digest Failure) :=
  walkParallel w S.toObjectTree (faults .blobs) (ingestBlob marked) (pathFor .blobs) sched.blobs

/-- garbagecollect.go:85-405 -/
def markAndSweep (w : Walker) (faults : Faults) (opts : GCOpts) (sched : Schedule)
    (S : Storage) : Option Collected :=
  (markRepositories w faults opts sched S).bind fun r =>
    if r.error.isSome then
      some ⟨S, r.effects.filterMap MarkEvent.marked, some .markingBlobs⟩
    else
      (enumerateBlobs w faults sched S (r.effects.filterMap MarkEvent.marked)).map fun b =>
        if b.error.isSome then
          ⟨S, r.effects.filterMap MarkEvent.marked, some .enumeratingBlobs⟩
        else if opts.dryRun then ⟨S, r.effects.filterMap MarkEvent.marked, none⟩
        else ⟨sweep S (r.effects.filterMap MarkEvent.manifestDel) b.effects,
          r.effects.filterMap MarkEvent.marked, none⟩

end ContainerRegistry.Model
