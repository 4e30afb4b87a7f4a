import ContainerRegistry.Model.Schema

/-!
# Mounting blobs

`Create` of `registry/storage/linkedblobstore.go` with a mount option, over the link files of the
layers of all repositories and the data of the blobs. `Stat` is that of `linkedBlobStatter`.

A request that fails has no effect. Of an upload its end is here: the data is moved to its canonical
digest, and the repository gets a link to it for that digest and for the one of the client.
-/

namespace ContainerRegistry.Model.Mounts

open Function

variable {Repo Bytes : Type} [DecidableEq Repo]

/-! ## The store -/

inductive LinkFile where
  | target (digest : Digest)
  /-- A text that is no digest. -/
  | invalid
  deriving DecidableEq, Repr

inductive Node (Bytes : Type) where
  | file (content : Bytes)
  | dir
  deriving DecidableEq, Repr

structure Store (Repo Bytes : Type) where
  links : Repo → Digest → Option LinkFile
  data : Digest → Option (Node Bytes)
  /-- The files `startedat` of uploads. -/
  uploads : List (Repo × ℕ)

def Store.empty : Store Repo Bytes := ⟨fun _ _ => none, fun _ => none, []⟩

/-- blobs.go:77-100 -/
structure Descriptor where
  mediaType : String
  size : ℕ
  digest : Digest
  deriving DecidableEq, Repr

inductive Error where
  | blobUnknown
  | invalidDigest
  | driver
  deriving DecidableEq, Repr

structure Faults where
  readLink : Bool
  statData : Bool
  moveData : Bool
  putLink : Digest → Bool
  putStartedAt : Bool
  openWriter : Bool

def noFaults : Faults := ⟨false, false, false, fun _ => false, false, false⟩

/-- The contents of blobs: how long they are, and their digests. -/
structure Contents (Bytes : Type) where
  size : Bytes → ℕ
  digest : Algorithm → Bytes → Digest
  digest_algorithm : ∀ a b, (digest a b).algorithm = a

variable (C : Contents Bytes)

variable (s : Store Repo Bytes) (f : Faults) (repo : Repo)

/-- blobstore.go:176-219 -/
def statData (d : Digest) : Except Error Descriptor :=
  if f.statData then .error .driver
  else
    match s.data d with
    | some (.file content) => .ok ⟨"application/octet-stream", C.size content, d⟩
    | _ => .error .blobUnknown

/-- linkedblobstore.go:398-434, 459-466 -/
def stat (d : Digest) : Except Error Descriptor :=
  if f.readLink then .error .driver
  else
    match s.links repo d with
    | none => .error .blobUnknown
    | some .invalid => .error .invalidDigest
    | some (.target t) => statData C s f t

def Store.link (d target : Digest) : Store Repo Bytes :=
  { s with
    links := update s.links repo (update (s.links repo) d (some (.target target))) }

def linkAll (f : Faults) (repo : Repo) (canonical : Digest) :
    List Digest → Store Repo Bytes → Store Repo Bytes × Option Error
  | [], s => (s, none)
  | d :: ds, s =>
    if f.putLink d then (s, some .driver)
    else linkAll f repo canonical ds (s.link repo d canonical)

/-- Digests that were seen are left out. linkedblobstore.go:351-381 -/
def linkBlob (canonical : Digest) (aliases : List Digest) : Store Repo Bytes × Option Error :=
  linkAll f repo canonical (canonical :: aliases).eraseDups s

/-! ## Calls -/

/-- blobs.go:230-240 -/
structure Mount (Repo : Type) where
  source : Repo
  digest : Digest
  stat : Option Descriptor

/-- linkedblobstore.go:296-325 -/
def mount (m : Mount Repo) : Store Repo Bytes × Except Error Descriptor :=
  let found : Except Error Descriptor :=
    match m.stat with
    | none => stat C s f m.source m.digest
    | some desc => .ok desc
  match found with
  | .error e => (s, .error e)
  | .ok found =>
    let desc : Descriptor := ⟨"application/octet-stream", found.size, m.digest⟩
    match linkBlob s f repo desc.digest [] with
    | (s', none) => (s', .ok desc)
    | (s', some e) => (s', .error e)

inductive Created (Repo : Type) where
  | mounted (source : Repo) (desc : Descriptor)
  | started (id : ℕ)
  | failed (e : Error)
  deriving DecidableEq, Repr

def startUpload (id : ℕ) : Store Repo Bytes × Created Repo :=
  if f.putStartedAt then (s, .failed .driver)
  else
    ({ s with uploads := (repo, id) :: s.uploads },
      if f.openWriter then .failed .driver else .started id)

/-- linkedblobstore.go:136-183 -/
def create (opts : Option (Mount Repo)) (id : ℕ) : Store Repo Bytes × Created Repo :=
  match opts with
  | none => startUpload s f repo id
  | some m =>
    match mount C s f repo m with
    | (s', .ok desc) => (s', .mounted m.source desc)
    | (s', .error _) => startUpload s' f repo id

/-- The end of an upload; data that is there is not moved again. blobwriter.go:62-101 -/
def commit (content : Bytes) (d : Digest) : Store Repo Bytes × Option Error :=
  if C.digest d.algorithm content ≠ d then (s, some .invalidDigest)
  else if f.moveData then (s, some .driver)
  else
    let canonical := C.digest .sha256 content
    let moved := (s.data canonical).getD (.file content)
    linkBlob { s with data := update s.data canonical (some moved) } f repo canonical [d]

/-- linkedblobstore.go:436-457 -/
def clear (d : Digest) : Store Repo Bytes :=
  { s with links := update s.links repo (update (s.links repo) d none) }

/-- What may happen to the repositories. The data of a blob is only removed by a garbage
collector. -/
inductive Action (Repo Bytes : Type) where
  | create (f : Faults) (repo : Repo) (opts : Option (Mount Repo)) (id : ℕ)
  | commit (f : Faults) (repo : Repo) (content : Bytes) (d : Digest)
  | clear (repo : Repo) (d : Digest)
  | remove (d : Digest)

def step : Action Repo Bytes → Option (Store Repo Bytes)
  | .create f repo opts id => some (create C s f repo opts id).1
  | .commit f repo content d => some (commit C s f repo content d).1
  | .clear repo d => some (clear s repo d)
  | .remove d => some { s with data := update s.data d none }

end ContainerRegistry.Model.Mounts
