import ContainerRegistry.Library.RowStore

/-!
# The metadata database

The tables the online garbage collector and the API handlers share, as rows of one store: their
unique keys (`rowKeys`) and their foreign keys (`rowParents`). Cascades are part of the delete
statements.

Columns that no modelled statement reads or checks are left out: some surrogate ids, creation times,
media types, sizes and payload bytes. Repositories are never deleted, so a repository is its key.
Times are in microseconds.
-/

namespace ContainerRegistry.Model

open Library

inductive Algorithm where
  | sha256
  | sha384
  | sha512
  deriving DecidableEq, Repr

/-- A content digest, `algorithm:encoded`. -/
structure Digest where
  algorithm : Algorithm
  encoded : ℕ
  deriving DecidableEq, Repr

structure RepoKey where
  namespaceID : ℕ
  id : ℕ
  deriving DecidableEq, Repr

abbrev TagName := ℕ

/-- The external URLs of a layer descriptor, as the URL policy of the registry judges them. -/
inductive URLs where
  | absent
  | allowed
  | rejected
  deriving DecidableEq, Repr

/-- The media types of a layer that validation tells apart: the foreign layer of schema 2, the
layer types of OCI, and all else. -/
inductive LayerType where
  | foreign
  | oci
  | other
  deriving DecidableEq, Repr

structure Layer where
  digest : Digest
  mediaType : LayerType
  urls : URLs
  deriving DecidableEq, Repr

/-- What a manifest payload refers to: an image (schema 2 or OCI) names a configuration and
layers, a manifest list or image index names manifests. -/
inductive Payload where
  | image (config : Digest) (layers : List Layer)
  | list (manifests : List Digest)
  deriving DecidableEq, Repr

def Payload.configuration : Payload → Option Digest
  | .image config _ => some config
  | .list _ => none

def Payload.isList : Payload → Bool
  | .image _ _ => false
  | .list _ => true

def Payload.layers : Payload → List Layer
  | .image _ layers => layers
  | .list _ => []

/-- A row of one of the tables. `tuple` identifies the physical row of a manifest review: an
update keeps it, a new insert under the same key does not. -/
inductive Row where
  | manifest (repo : RepoKey) (id : ℕ) (digest : Digest) (payload : Payload)
  | tag (repo : RepoKey) (name : TagName) (manifestID : ℕ)
  | manifestReference (repo : RepoKey) (parentID childID : ℕ)
  | manifestReview (repo : RepoKey) (manifestID : ℕ) (reviewAfter : ℕ) (reviewCount tuple : ℕ)
  | blob (digest : Digest)
  | repositoryBlob (repo : RepoKey) (digest : Digest)
  | layer (repo : RepoKey) (id manifestID : ℕ) (digest : Digest)
  | gcBlobLayer (repo : RepoKey) (layerID : ℕ) (digest : Digest)
  | gcBlobConfiguration (repo : RepoKey) (manifestID : ℕ) (digest : Digest)
  | blobReview (digest : Digest) (reviewAfter : ℕ) (reviewCount : ℕ)
  deriving DecidableEq, Repr

/-- The unique keys, one constructor a constraint. -/
inductive Key where
  | manifest (repo : RepoKey) (id : ℕ)
  | manifestDigest (repo : RepoKey) (digest : Digest)
  | manifestConfiguration (repo : RepoKey) (id : ℕ) (digest : Digest)
  | tag (repo : RepoKey) (name : TagName)
  | manifestReference (repo : RepoKey) (parentID childID : ℕ)
  | manifestReview (repo : RepoKey) (manifestID : ℕ)
  | blob (digest : Digest)
  | repositoryBlob (repo : RepoKey) (digest : Digest)
  | layer (repo : RepoKey) (id : ℕ)
  | layerOfManifest (repo : RepoKey) (manifestID : ℕ) (digest : Digest)
  | layerDigest (repo : RepoKey) (id : ℕ) (digest : Digest)
  | gcBlobLayer (digest : Digest) (layerID : ℕ)
  | gcBlobConfiguration (digest : Digest) (manifestID : ℕ)
  | blobReview (digest : Digest)
  deriving DecidableEq, Repr

/-- The primary and unique keys of a row.
SOURCE: datastore/migrations/20210503150607 to 20210503160418 -/
def rowKeys : Row → List Key
  | .manifest repo id digest payload =>
    .manifest repo id :: .manifestDigest repo digest ::
      (payload.configuration.map (Key.manifestConfiguration repo id)).toList
  | .tag repo name _ => [.tag repo name]
  | .manifestReference repo parent child => [.manifestReference repo parent child]
  | .manifestReview repo id _ _ _ => [.manifestReview repo id]
  | .blob digest => [.blob digest]
  | .repositoryBlob repo digest => [.repositoryBlob repo digest]
  | .layer repo id manifestID digest =>
    [.layer repo id, .layerOfManifest repo manifestID digest, .layerDigest repo id digest]
  | .gcBlobLayer _ layerID digest => [.gcBlobLayer digest layerID]
  | .gcBlobConfiguration _ manifestID digest => [.gcBlobConfiguration digest manifestID]
  | .blobReview digest _ _ => [.blobReview digest]

/-- The keys a row's foreign keys point to. `gc_blob_review_queue` has none: a review may
outlive its blob.
SOURCE: datastore/migrations/20210503150607 to 20210503160418 -/
def rowParents : Row → List Key
  | .manifest _ _ _ payload => (payload.configuration.map Key.blob).toList
  | .tag repo _ manifestID => [.manifest repo manifestID]
  | .manifestReference repo parent child => [.manifest repo parent, .manifest repo child]
  | .manifestReview repo id _ _ _ => [.manifest repo id]
  | .blob _ => []
  | .repositoryBlob _ digest => [.blob digest]
  | .layer repo _ manifestID digest => [.manifest repo manifestID, .blob digest]
  | .gcBlobLayer repo layerID digest => [.layerDigest repo layerID digest, .blob digest]
  | .gcBlobConfiguration repo manifestID digest =>
    [.manifestConfiguration repo manifestID digest, .blob digest]
  | .blobReview _ _ _ => []

def schema : Schema Row Key := ⟨rowKeys, rowParents⟩

abbrev Database := Store Row Key ℕ

end ContainerRegistry.Model
