import ContainerRegistry.Model.Schema
import ContainerRegistry.Model.Walk

/-!
# The storage of a registry

The layout of the storage backend (`paths.go`) and the services that read it.

A path component is a constructor of `Segment`; the code only asks whether it equals a fixed name or
starts with an underscore. The content of a file is what reading it gives. The decoding of
manifests, upload files and media types are left out.

`Storage` carries what the layout promises.
-/

namespace ContainerRegistry.Model

open Library

/-! ## Paths -/

inductive Segment where
  | docker
  | registry
  | v2
  | repositories
  | blobs
  | layers
  | manifests
  | uploads
  | underscored (n : ℕ)
  | revisions
  | tags
  | current
  | index
  | link
  | data
  | algorithm (a : Algorithm)
  | firstTwo (n : ℕ)
  | hex (n : ℕ)
  | word (n : ℕ)
  deriving DecidableEq, Repr

/-- The component starts with an underscore: `_layers`, `_manifests`, `_uploads` or another
such name. -/
def Segment.special : Segment → Bool
  | .layers => true
  | .manifests => true
  | .uploads => true
  | .underscored _ => true
  | _ => false

abbrev Path := List Segment

/-- The paths the collector asks for. Names are given by their components. -/
inductive PathSpec where
  | repositoriesRoot
  | manifestRevisions (name : Path)
  | manifestRevisionLink (name : Path) (revision : Digest)
  | manifestTags (name : Path)
  | manifestTagCurrent (name : Path) (tag : Segment)
  | manifestTagIndexEntryLink (name : Path) (tag : Segment) (revision : Digest)
  | layers (name : Path)
  | layerLink (name : Path) (digest : Digest)
  | blobs
  | blobData (digest : Digest)

def hexLength : Algorithm → ℕ
  | .sha256 => 64
  | .sha384 => 96
  | .sha512 => 128

def firstTwo (d : Digest) : ℕ := d.encoded / Nat.pow 16 (hexLength d.algorithm - 2)

def rootPrefix : Path := [.docker, .registry, .v2]

def repoPrefix (name : Path) : Path := rootPrefix ++ .repositories :: name

/-- The components of a digest in a path, with or without the level of the first two digits.
paths.go:459-477 -/
def digestPathComponents (d : Digest) (multilevel : Bool) : Path :=
  if multilevel then [.algorithm d.algorithm, .firstTwo (firstTwo d), .hex d.encoded]
  else [.algorithm d.algorithm, .hex d.encoded]

/-- paths.go:107-263 -/
def pathFor : PathSpec → Path
  | .repositoriesRoot => repoPrefix []
  | .manifestRevisions name => repoPrefix name ++ [.manifests, .revisions]
  | .manifestRevisionLink name d =>
    repoPrefix name ++ [.manifests, .revisions] ++ digestPathComponents d false ++ [.link]
  | .manifestTags name => repoPrefix name ++ [.manifests, .tags]
  | .manifestTagCurrent name tag => repoPrefix name ++ [.manifests, .tags, tag, .current, .link]
  | .manifestTagIndexEntryLink name tag d =>
    repoPrefix name ++ [.manifests, .tags, tag, .index] ++ digestPathComponents d false ++ [.link]
  | .layers name => repoPrefix name ++ [.layers]
  | .layerLink name d => repoPrefix name ++ [.layers] ++ digestPathComponents d false ++ [.link]
  | .blobs => rootPrefix ++ [.blobs]
  | .blobData d => rootPrefix ++ [.blobs] ++ digestPathComponents d true ++ [.data]

/-- The digest a `data` file stands for, from its path. Where the level of the first two digits is
missing, the algorithm comes right before the digits. paths.go:479-496 -/
def digestFromPath (p : Path) : Option Digest :=
  match p.reverse with
  | .data :: .hex n :: .firstTwo m :: .algorithm a :: _ =>
    if firstTwo ⟨a, n⟩ = m then some ⟨a, n⟩ else none
  | .data :: .hex n :: .algorithm a :: _ => some ⟨a, n⟩
  | _ => none

/-- A repository name: `reference.WithName` accepts components that start with a letter or a
digit. -/
def validName (name : Path) : Bool := !name.isEmpty && name.all fun c => !c.special

structure Name where
  components : Path
  valid : validName components = true

/-! ## Files -/

inductive LinkError where
  | invalidFormat
  | invalidLength
  | unsupported
  deriving DecidableEq, Repr

/-- What a manifest refers to. A schema 1 manifest has no configuration. -/
inductive Manifest where
  | image (config : Option Digest) (layers : List Digest)
  | list (manifests : List Digest)
  deriving DecidableEq, Repr

/-- schema2/manifest.go:75-80, manifestlist/manifestlist.go:125-132 -/
def Manifest.references : Manifest → List Digest
  | .image config layers => config.toList ++ layers
  | .list manifests => manifests

inductive Content where
  | link (digest : Digest)
  | invalidLink (e : LinkError)
  | manifest (m : Manifest)
  | other
  deriving DecidableEq, Repr

/-- What the layout allows below the repositories root, at a path relative to it: directories
of names, and all else within a directory of a name that starts with an underscore. -/
def laidOut (p : Path) (o : Object Content) : Bool :=
  match p.dropWhile fun c => !c.special with
  | [] => decide (o = .dir)
  | [_] => decide (o = .dir) && validName (p.takeWhile fun c => !c.special)
  | _ :: _ :: _ => validName (p.takeWhile fun c => !c.special)

/-- A storage backend with the layout of the registry. -/
structure Storage extends ObjectTree Segment Content where
  repositories_laid : ∀ e ∈ entries, pathFor .repositoriesRoot <+: e.1 →
    laidOut (e.1.drop (pathFor .repositoriesRoot).length) e.2 = true
  blobs_laid : ∀ e ∈ entries, e.2 ≠ .dir → pathFor .blobs <+: e.1 → e.1.getLast? = some .data →
    (digestFromPath e.1).map (fun d => pathFor (.blobData d)) = some e.1

def Storage.remove (S : Storage) (ps : List Path) : Storage where
  toObjectTree := S.toObjectTree.deleteFiles ps
  repositories_laid := fun e he => S.repositories_laid e (List.mem_of_mem_filter he)
  blobs_laid := fun e he => S.blobs_laid e (List.mem_of_mem_filter he)

/-! ## Services -/

inductive Failure where
  | link (e : LinkError)
  | blobUnknown
  | manifestUnknownRevision
  | unmarshal
  | digest
  | parsingRepoName
  | retrievingTags
  | enumeratingManifests
  | markingTaggedManifests
  | markingReferencedManifests
  deriving DecidableEq, Repr

abbrev StoreError := StorageError Segment Failure

/-- blobstore.go:145-159 -/
def readlink (fails : Request Segment → Bool) (S : Storage) (p : Path) : Except StoreError Digest :=
  if fails (.read p) then .error (.failed (.read p))
  else match S.read p with
    | none => .error (.pathNotFound p)
    | some (.link d) => .ok d
    | some (.invalidLink e) => .error (.other (.link e))
    | some (.manifest _) => .error (.other (.link .invalidFormat))
    | some .other => .error (.other (.link .invalidFormat))

/-- blobstore.go:177-216 -/
def blobStat (fails : Request Segment → Bool) (S : Storage) (d : Digest) :
    Except StoreError Digest :=
  if fails (.stat (pathFor (.blobData d))) then .error (.failed (.stat (pathFor (.blobData d))))
  else if (S.read (pathFor (.blobData d))).isSome then .ok d
  else .error (.other .blobUnknown)

/-- The first link file that exists. linkedblobstore.go:396-419 -/
def resolveLink (fails : Request Segment → Bool) (S : Storage) :
    List Path → Except StoreError Digest
  | [] => .error (.other .blobUnknown)
  | p :: ps =>
    match readlink fails S p with
    | .ok target => .ok target
    | .error (.pathNotFound _) => resolveLink fails S ps
    | .error e => .error e

/-- The blob that a digest stands for in the manifest service of a repository: its revision link, or
else its layer link, names it. linkedblobstore.go:390-430, registry.go:261-266 -/
def linkedStat (fails : Request Segment → Bool) (S : Storage) (name : Path) (d : Digest) :
    Except StoreError Digest :=
  match resolveLink fails S
    [pathFor (.manifestRevisionLink name d), pathFor (.layerLink name d)] with
  | .ok target => blobStat fails S target
  | .error e => .error e

/-- manifeststore.go:74-125, linkedblobstore.go:53-60, blobstore.go:26-43 -/
def getManifest (fails : Request Segment → Bool) (S : Storage) (name : Path) (d : Digest) :
    Except StoreError Manifest :=
  match linkedStat fails S name d with
  | .error (.other .blobUnknown) => .error (.other .manifestUnknownRevision)
  | .error e => .error e
  | .ok target =>
    if fails (.read (pathFor (.blobData target))) then
      .error (.failed (.read (pathFor (.blobData target))))
    else match S.read (pathFor (.blobData target)) with
      | none => .error (.other .manifestUnknownRevision)
      | some (.manifest m) => .ok m
      | some (.link _) => .error (.other .unmarshal)
      | some (.invalidLink _) => .error (.other .unmarshal)
      | some .other => .error (.other .unmarshal)

end ContainerRegistry.Model
