import ContainerRegistry.Library.Stages
import ContainerRegistry.Model.ManifestFormats

/-!
# The metadata importer

`registry/datastore/importer.go`: the metadata of one repository goes from the filesystem to the
database, its blobs to another storage.

A stage that fails keeps what it has written, and most errors are logged and the loop goes on
(`Stage.logged`). What the storage services answer does not change during an import. A row refers to
a manifest by its digest, where the tables have a generated id. The tables of the garbage collector,
creation times and other repositories are left out. A text that is no digest is like one of an
algorithm unknown to the database. The transfer service is given by its faults; a failed transfer
leaves nothing at the destination.
-/

namespace ContainerRegistry.Model.Imports

open Library
open Model.Manifests (MediaType mediaTypes Versioned)

/-! ## The filesystem -/

/-- blobs.go:77-100 -/
structure Descriptor where
  mediaType : MediaType
  digest : Digest
  size : Int
  deriving DecidableEq, Repr

/-- The image manifests of schema 2 and of OCI, with the bytes they were read from.
schema2/manifest.go:63-72, ocischema/manifest.go:41-53 -/
structure Image (Bytes : Type) where
  versioned : Versioned
  config : Descriptor
  layers : List Descriptor
  payload : Bytes
  deriving DecidableEq, Repr

/-- A manifest list or an OCI index; of its descriptors the digests.
manifestlist/manifestlist.go:116-121 -/
structure ManifestList (Bytes : Type) where
  versioned : Versioned
  manifests : List Digest
  payload : Bytes
  deriving DecidableEq, Repr

inductive Manifest (Bytes : Type) where
  | schema1
  | schema2 (m : Image Bytes)
  | ocischema (m : Image Bytes)
  | list (l : ManifestList Bytes)
  deriving DecidableEq, Repr

structure Filesystem (Bytes : Type) where
  -- the path is a repository name
  named : Bool
  -- `tagService.All` and `tagService.Get`
  tags : Option (List TagName)
  target : TagName → Option Digest
  -- `manifestEnumerator.Enumerate` and `manifestService.Get`
  revisions : Option (List Digest)
  manifest : Digest → Option (Manifest Bytes)
  -- `blobStore.Get`
  blob : Digest → Option Bytes

/-! ## The database and the destination -/

structure LayerRow where
  manifest : Digest
  blob : Descriptor
  deriving DecidableEq, Repr

structure Configuration (Bytes : Type) where
  mediaType : MediaType
  digest : Digest
  payload : Bytes
  deriving DecidableEq, Repr

structure ManifestRow (Bytes : Type) where
  schemaVersion : Int
  mediaType : MediaType
  digest : Digest
  payload : Bytes
  configuration : Option (Configuration Bytes)
  deriving DecidableEq, Repr

/-- The rows of the repository: the repository with its namespace and its parents, `blobs`,
`repository_blobs`, `manifests`, `layers`, `manifest_references` and `tags`. -/
structure Database (Bytes : Type) where
  repository : Bool
  blobs : List Descriptor
  links : List Digest
  manifests : List (ManifestRow Bytes)
  layers : List LayerRow
  references : List (Digest × Digest)
  tags : List (TagName × Digest)
  deriving DecidableEq, Repr

def Database.empty (Bytes : Type) : Database Bytes := ⟨false, [], [], [], [], [], []⟩

/-- What `countRows` counts. importer.go:573-613 -/
def Database.isEmpty {Bytes : Type} (db : Database Bytes) : Bool :=
  !db.repository && db.manifests.isEmpty && db.blobs.isEmpty && db.tags.isEmpty

/-- The database, the blobs at the destination and the number of transfers so far. -/
structure State (Bytes : Type) where
  db : Database Bytes
  dest : List Digest
  calls : ℕ
  deriving DecidableEq, Repr

/-- The options of the importer. `blobTransferService` is absent when no destination is given.
importer.go:25-72 -/
structure Importer where
  importDanglingManifests : Bool
  requireEmptyDatabase : Bool
  dryRun : Bool
  blobTransferService : Option (ℕ → Digest → Bool)

inductive ImportError where
  | repositoryName
  | repositoryUnknown
  | nonEmptyDatabase
  | tagDetails (name : TagName)
  | manifestUnknown (d : Digest)
  | schemaV1Unsupported
  | manifestClass
  | blobUnknown (d : Digest)
  | algorithm (d : Digest)
  | mediaType (t : MediaType)
  | selfReference
  | transfer (d : Digest)
  deriving DecidableEq, Repr

variable {Bytes : Type}

abbrev ImportStage (Bytes : Type) := Stage (State Bytes) ImportError

/-! ## The stores -/

/-- `NewDigest`: the algorithms the database has a code for. digest.go:25-42 -/
def newDigest (d : Digest) : Option ImportError :=
  if d.algorithm = .sha384 then some (.algorithm d) else none

/-- datastore/manifest.go:232-250 -/
def mapMediaType (t : MediaType) : Option ImportError :=
  if t ∈ mediaTypes then none else some (.mediaType t)

/-- Put a row in front of a table, unless one of its key is there (`ON CONFLICT DO NOTHING`). -/
def insertUnless {α : Type} (found : Bool) (row : α) (table : List α) : List α :=
  if found then table else row :: table

namespace Database

variable (db : Database Bytes)

def hasBlob (d : Digest) : Bool := db.blobs.any (·.digest = d)

def hasManifest (d : Digest) : Bool := db.manifests.any (·.digest = d)

def hasLayer (m d : Digest) : Bool := db.layers.any fun l => l.manifest = m ∧ l.blob.digest = d

def addBlob (b : Descriptor) : Database Bytes :=
  { db with blobs := insertUnless (db.hasBlob b.digest) b db.blobs }

def addLink (d : Digest) : Database Bytes :=
  { db with links := insertUnless (d ∈ db.links) d db.links }

def addManifest (row : ManifestRow Bytes) : Database Bytes :=
  { db with manifests := row :: db.manifests }

def addLayer (m : Digest) (b : Descriptor) : Database Bytes :=
  { db with layers := insertUnless (db.hasLayer m b.digest) ⟨m, b⟩ db.layers }

def addReference (list m : Digest) : Database Bytes :=
  { db with references := insertUnless ((list, m) ∈ db.references) (list, m) db.references }

def putTag (name : TagName) (d : Digest) : Database Bytes :=
  { db with tags :=
      if (name, d) ∈ db.tags then db.tags
      else (name, d) :: db.tags.filter fun t => t.1 ≠ name }

def addRepository : Database Bytes := { db with repository := true }

end Database

def modify (f : Database Bytes → Database Bytes) : ImportStage Bytes := fun s =>
  ({ s with db := f s.db }, none)

/-- The blob `b` as `CreateOrFind` leaves it: an existing record is loaded.
datastore/blob.go:170-208 -/
def loaded (db : Database Bytes) (b : Descriptor) : Descriptor :=
  (db.blobs.find? (·.digest = b.digest)).getD b

/-- datastore/blob.go:170-208 -/
def createOrFindBlob (b : Descriptor) : ImportStage Bytes :=
  (Stage.check fun _ => newDigest b.digest).andThen <|
    (Stage.check fun _ => mapMediaType b.mediaType).andThen (modify (·.addBlob b))

/-- datastore/repository.go:926-942 -/
def linkBlob (d : Digest) : ImportStage Bytes :=
  (Stage.check fun _ => newDigest d).andThen (modify (·.addLink d))

/-- datastore/manifest.go:344-365 -/
def associateLayerBlob (m : Digest) (b : Descriptor) : ImportStage Bytes :=
  (Stage.check fun _ => newDigest b.digest).andThen <|
    (Stage.check fun _ => mapMediaType b.mediaType).andThen (modify (·.addLayer m b))

/-- datastore/manifest.go:299-320 -/
def associateManifest (list m : Digest) : ImportStage Bytes :=
  (Stage.check fun _ => if list = m then some .selfReference else none).andThen
    (modify (·.addReference list m))

/-- datastore/manifest.go:253-296 -/
def createManifest (row : ManifestRow Bytes) : ImportStage Bytes :=
  (Stage.check fun _ => newDigest row.digest).andThen <|
    (Stage.check fun _ => mapMediaType row.mediaType).andThen <|
      (Stage.check fun _ => row.configuration.bind fun c => newDigest c.digest).andThen <|
        (Stage.check fun _ => row.configuration.bind fun c => mapMediaType c.mediaType).andThen
          (modify (·.addManifest row))

/-- tag.go:178-205 -/
def createOrUpdateTag (name : TagName) (d : Digest) : ImportStage Bytes := modify (·.putTag name d)

/-- datastore/repository.go:862-886 -/
def createOrFindByPath : ImportStage Bytes := modify (·.addRepository)

/-! ## The importer -/

/-- importer.go:107-121 -/
def findOrCreateDBManifest (row : ManifestRow Bytes) : ImportStage Bytes :=
  (Stage.check fun _ => newDigest row.digest).andThen fun s =>
    if s.db.hasManifest row.digest then (s, none) else createManifest row s

variable (imp : Importer)

/-- importer.go:170-187 -/
def transferBlob (d : Digest) : ImportStage Bytes := fun s =>
  match imp.dryRun, imp.blobTransferService with
  | false, some faults =>
    if faults s.calls d then ({ s with calls := s.calls + 1 }, some (.transfer d))
    else ({ s with dest := d :: s.dest, calls := s.calls + 1 }, none)
  | _, _ => (s, none)

/-- importer.go:123-141 -/
def importLayer (m : Digest) (b : Descriptor) : ImportStage Bytes :=
  (createOrFindBlob b).andThen fun s =>
    ((associateLayerBlob m (loaded s.db b)).andThen <|
      (linkBlob b.digest).andThen (transferBlob imp b.digest)) s

/-- The error of a layer is logged and goes no further. importer.go:143-168 -/
def importLayers (m : Digest) (layers : List Descriptor) : ImportStage Bytes :=
  Stage.forEach (fun b => (importLayer imp m b).logged) layers

def imageRow (d : Digest) (v : Versioned) (m : Image Bytes) (config : Descriptor)
    (payload : Bytes) : ManifestRow Bytes :=
  ⟨v.schemaVersion, v.mediaType, d, m.payload, some ⟨config.mediaType, config.digest, payload⟩⟩

variable (fs : Filesystem Bytes)

/-- importer.go:219-271 -/
def importV2Manifest (v : Versioned) (m : Image Bytes) (d : Digest) : ImportStage Bytes :=
  match fs.blob m.config.digest with
  | none => Stage.fail (.blobUnknown m.config.digest)
  | some payload =>
    (createOrFindBlob m.config).andThen <|
      (transferBlob imp m.config.digest).andThen <|
        (linkBlob m.config.digest).andThen fun s =>
          ((findOrCreateDBManifest (imageRow d v m (loaded s.db m.config) payload)).andThen
            (importLayers imp d m.layers)) s

/-- Helm chart manifests do not include a media type. importer.go:205-213 -/
def ociVersion (v : Versioned) : Versioned :=
  if v.mediaType = .empty then { v with mediaType := .imageManifest } else v

/-- Manifest lists are not among the classes: a list within a list is an error. importer.go:338-350
-/
def importManifest (d : Digest) : Manifest Bytes → ImportStage Bytes
  | .schema1 => Stage.fail .schemaV1Unsupported
  | .schema2 m => importV2Manifest imp fs m.versioned m d
  | .ocischema m => importV2Manifest imp fs (ociVersion m.versioned) m d
  | .list _ => Stage.fail .manifestClass

/-- The media type is made explicit. -/
def listRow (d : Digest) (l : ManifestList Bytes) : ManifestRow Bytes :=
  ⟨l.versioned.schemaVersion,
    if l.versioned.mediaType = .empty then .imageIndex else l.versioned.mediaType,
    d, l.payload, none⟩

def importMember (list d : Digest) : ImportStage Bytes :=
  match fs.manifest d with
  | none => Stage.fail (.manifestUnknown d)
  | some m => (importManifest imp fs d m).andThen (associateManifest list d)

/-- importer.go:273-336 -/
def importManifestList (l : ManifestList Bytes) (d : Digest) : ImportStage Bytes :=
  (findOrCreateDBManifest (listRow d l)).andThen <|
    Stage.forEach (fun c => (importMember imp fs d c).logged) l.manifests

/-- The switch of `importManifests`, `importTags` and `preImportManifest`. -/
def importAny (d : Digest) : Manifest Bytes → ImportStage Bytes
  | .list l => importManifestList imp fs l d
  | m => importManifest imp fs d m

/-- Schema 1 is logged. importer.go:363-386 -/
def importRevision (d : Digest) : ImportStage Bytes :=
  match fs.manifest d with
  | none => Stage.fail (.manifestUnknown d)
  | some .schema1 => (importAny imp fs d .schema1).logged
  | some m => importAny imp fs d m

/-- importer.go:352-389 -/
def importManifests : ImportStage Bytes :=
  match fs.revisions with
  | none => Stage.fail .repositoryUnknown
  | some revisions => Stage.forEach (importRevision imp fs) revisions

/-- From the database or from the filesystem. importer.go:420-446 -/
def tagManifest (d : Digest) : ImportStage Bytes :=
  (Stage.check fun _ => newDigest d).andThen fun s =>
    if s.db.hasManifest d then (s, none)
    else match fs.manifest d with
      | none => (s, some (.manifestUnknown d))
      | some m => importAny imp fs d m s

/-- importer.go:407-453 -/
def importTag (name : TagName) : ImportStage Bytes :=
  match fs.target name with
  | none => Stage.fail (.tagDetails name)
  | some d => (tagManifest imp fs d).andThen (createOrUpdateTag name d)

/-- importer.go:391-456 -/
def importTags : ImportStage Bytes :=
  match fs.tags with
  | none => Stage.fail .repositoryUnknown
  | some names => Stage.forEach (fun name => (importTag imp fs name).logged) names

def checkName : ImportStage Bytes :=
  Stage.check fun _ => if fs.named then none else some .repositoryName

/-- importer.go:458-488 -/
def importRepository : ImportStage Bytes :=
  (checkName fs).andThen <|
    createOrFindByPath.andThen <|
      (Stage.when imp.importDanglingManifests (importManifests imp fs)).andThen (importTags imp fs)

def refuses (s : State Bytes) : Bool := imp.requireEmptyDatabase && !s.db.isEmpty

/-- importer.go:747-794 -/
def doImport : ImportStage Bytes := fun s =>
  if refuses imp s then (s, some .nonEmptyDatabase)
  else match importRepository imp fs s with
    | (s', some e) => ({ s' with db := s.db }, some e)
    | (s', none) => (if imp.dryRun then { s' with db := s.db } else s', none)

/-! ## Pre-import -/

/-- A manifest that cannot be retrieved goes on as the nil manifest, which is of no class. The error
is logged, what is written is committed. importer.go:526-571 -/
def preImportManifest (d : Digest) : ImportStage Bytes :=
  match fs.manifest d with
  | none => (Stage.fail .manifestClass).logged
  | some m => (importAny imp fs d m).logged

/-- importer.go:499-521 -/
def preImportTag (name : TagName) : ImportStage Bytes :=
  match fs.target name with
  | none => Stage.fail (.tagDetails name)
  | some d => (Stage.check fun _ => newDigest d).andThen fun s =>
      if s.db.hasManifest d then (s, none) else preImportManifest imp fs d s

/-- importer.go:490-524 -/
def preImportTaggedManifests : ImportStage Bytes :=
  match fs.tags with
  | none => Stage.fail .repositoryUnknown
  | some names => Stage.forEach (fun name => (preImportTag imp fs name).logged) names

/-- importer.go:796-873 -/
def preImport : ImportStage Bytes := fun s =>
  if refuses imp s then (s, some .nonEmptyDatabase)
  else
    let r := ((checkName fs).andThen <|
      createOrFindByPath.andThen (preImportTaggedManifests imp fs)) s
    (if imp.dryRun then { r.1 with db := s.db } else r.1, r.2)

end ContainerRegistry.Model.Imports
