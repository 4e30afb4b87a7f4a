import ContainerRegistry.Library.Stages
import ContainerRegistry.Model.ManifestFormats

/-!
# Uploading and fetching manifests

`handlers/manifests.go` for one repository, over the filesystem metadata
(`storage/manifeststore.go`, `storage/tagstore.go`) and over the database. A configuration says
which of the two are written and which one is read.

`putManifest` is a sequence of stages, each of which may fail and leaves what the stages before it
wrote. Requests are served one after the other and the stores answer every query they understand.
What is written for the garbage collector only is left out.
-/

namespace ContainerRegistry.Model.Manifests

open Library Function

variable {Bytes : Type}

/-! ## The stores -/

structure Row (Bytes : Type) where
  schemaVersion : Int
  mediaType : MediaType
  payload : Bytes

/-- A tag refers to its manifest by the digest, which is unique in a repository. -/
structure Database (Bytes : Type) where
  repository : Bool
  manifests : Digest → Option (Row Bytes)
  tags : TagName → Option Digest
  blobs : Digest → Option MediaType

structure Store (Bytes : Type) where
  blobs : Digest → Option Bytes
  -- the link files of the repository, and the current revision of a tag
  layers : Digest → Bool
  revisions : Digest → Bool
  current : TagName → Option Digest
  db : Database Bytes

def Store.empty : Store Bytes where
  blobs := fun _ => none
  layers := fun _ => false
  revisions := fun _ => false
  current := fun _ => none
  db :=
    { repository := false
      manifests := fun _ => none
      tags := fun _ => none
      blobs := fun _ => none }

/-- Without the database, metadata is always written to the filesystem. app.go:983-1027 -/
structure Config (Bytes : Type) where
  useDatabase : Bool
  writeFSMetadata : Bool
  writes : useDatabase = false → writeFSMetadata = true
  isCache : Bool
  validURL : String → Bool
  -- the message of a denied request
  applyResourcePolicy : Manifest Bytes → Option String

/-! ## Validation -/

structure ParsedURL where
  scheme : String
  fragment : String
  deriving DecidableEq, Repr

/-- The regular expressions for URLs, as the texts they match. validation.go:32-36 -/
structure ManifestURLs where
  allow : Option (String → Bool)
  deny : Option (String → Bool)

/-- validation.go:38-45 -/
def validURL (parse : String → Option ParsedURL) (u : ManifestURLs) (s : String) : Bool :=
  match parse s with
  | none => false
  | some pu =>
    !((pu.scheme ≠ "http" && pu.scheme ≠ "https") || pu.fragment ≠ "" ||
      u.allow.any (fun re => !re s) || u.deny.any (fun re => re s))

inductive CheckError where
  | blobUnknown
  | missingURL
  | invalidURL
  | invalidDigest
  | repositoryUnknown
  deriving DecidableEq, Repr

inductive VerificationError where
  | check (e : CheckError)
  | blobUnknown (digest : Option Digest)
  deriving DecidableEq, Repr

inductive PutError where
  | verification (errs : List VerificationError)
  | schemaVersion (version : Int)
  | schemaV1Unsupported
  | typeUnsupported
  | unknownMediaType (mediaType : MediaType)
  | invalidDigest
  | blobNotFound
  | blobUnknown
  | manifestNotFound
  | syntaxError
  deriving DecidableEq, Repr

/-- Whether a manifest or a blob can be referred to, in one of the stores. -/
structure Dependencies where
  manifestExists : Option Digest → Except CheckError Bool
  blobStat : Option Digest → Option CheckError

/-- schema2.go:77-84, oci.go:77-84 -/
def report (d : Descriptor) : Option CheckError → List VerificationError
  | none => []
  | some .blobUnknown => [.blobUnknown d.digest]
  | some e => [.check e, .blobUnknown d.digest]

/-- The schema version, and a check of every reference. schema2.go:33-92 -/
def validate (version : Int) (skipDependencyVerification : Bool)
    (check : Descriptor → Option CheckError) (references : List Descriptor) : Option PutError :=
  if version ≠ 2 then some (.schemaVersion version)
  else if skipDependencyVerification then none
  else match references.flatMap fun d => report d (check d) with
    | [] => none
    | errs => some (.verification errs)

/-- The blob store is asked when a descriptor has no URLs. -/
def statUnlessURLs (deps : Dependencies) (d : Descriptor) (err : Option CheckError) :
    Option CheckError :=
  if d.urls = [] then deps.blobStat d.digest else err

/-- A manifest that cannot be found counts as an unknown blob. -/
def manifestCheck (deps : Dependencies) (d : Descriptor) : Option CheckError :=
  match deps.manifestExists d.digest with
  | .ok true => none
  | _ => some .blobUnknown

/-- schema2.go:47-75 -/
def schema2Check (validURL : String → Bool) (deps : Dependencies) (d : Descriptor) :
    Option CheckError :=
  match d.mediaType with
  | .dockerForeignLayer =>
    if d.urls.any fun u => !validURL u then some .invalidURL
    else if d.urls = [] then some .missingURL
    else none
  | .manifestV2 | .manifestV1 => statUnlessURLs deps d (manifestCheck deps d)
  | _ => statUnlessURLs deps d none

/-- oci.go:46-75 -/
def ociCheck (validURL : String → Bool) (deps : Dependencies) (d : Descriptor) :
    Option CheckError :=
  match d.mediaType with
  | .ociLayer | .ociLayerGzip | .ociNondistributableLayer | .ociNondistributableLayerGzip =>
    if d.urls.any fun u => !validURL u then some .invalidURL
    else statUnlessURLs deps d none
  | .imageManifest => statUnlessURLs deps d (manifestCheck deps d)
  | _ => statUnlessURLs deps d none

/-- validation/manifestlist.go:39-48 -/
def listCheck (deps : Dependencies) (d : Descriptor) : Option CheckError :=
  match deps.manifestExists d.digest with
  | .ok true => none
  | .ok false => some .blobUnknown
  | .error e => some e

variable (F : Formats Bytes) (cfg : Config Bytes)

/-- schema2.go:33-92 -/
def schema2Validate (skip : Bool) (deps : Dependencies) (m : Image) : Option PutError :=
  validate m.versioned.schemaVersion skip (schema2Check cfg.validURL deps) m.references

/-- oci.go:34-92 -/
def ociValidate (skip : Bool) (deps : Dependencies) (m : Image) : Option PutError :=
  validate m.versioned.schemaVersion skip (ociCheck cfg.validURL deps) m.references

/-- validation/manifestlist.go:31-56 -/
def listValidate (skip : Bool) (deps : Dependencies) (l : ManifestList) : Option PutError :=
  validate l.versioned.schemaVersion skip (listCheck deps) l.references

abbrev PutStage (Bytes : Type) := Stage (Store Bytes) PutError

/-! ## The filesystem -/

/-- linkedblobstore.go:398-434 -/
def linkedStat (link : Digest → Bool) (s : Store Bytes) : Option Digest → Option CheckError
  | none => some .invalidDigest
  | some d => if link d ∧ (s.blobs d).isSome then none else some .blobUnknown

/-- Manifests are looked for among the revisions and among the layers. storage/registry.go:257-262
-/
def manifestLink (s : Store Bytes) (d : Digest) : Bool := s.revisions d || s.layers d

/-- manifeststore.go:58-72, storage/registry.go:351-390 -/
def fsDependencies (s : Store Bytes) : Dependencies where
  manifestExists := fun d =>
    match linkedStat (manifestLink s) s d with
    | none => .ok true
    | some .blobUnknown => .ok false
    | some e => .error e
  blobStat := linkedStat s.layers s

/-- A blob that is there is not written again. linkedblobstore.go:93-113, blobstore.go:61-92 -/
def linkRevision (p : Bytes) (s : Store Bytes) : Store Bytes :=
  let d := F.fromBytes p
  { s with
    blobs := update s.blobs d (some ((s.blobs d).getD p))
    revisions := update s.revisions d true }

/-- Schema 1 is refused. manifeststore.go:128-143, ocimanifesthandler.go:38-62,
v1unsupportedhandler.go:27-29 -/
def fsPut (m : Manifest Bytes) : PutStage Bytes := fun s =>
  let verified := match m with
    | .schema1 _ _ => some .schemaV1Unsupported
    | .schema2 m _ => schema2Validate cfg false (fsDependencies s) m
    | .oci m _ => ociValidate cfg false (fsDependencies s) m
    | .list l _ => listValidate false (fsDependencies s) l
  match verified with
  | some e => (s, some e)
  | none => (linkRevision F m.payload.2 s, none)

/-- tagstore.go:74-93 -/
def fsTag (tag : TagName) (d : Digest) : PutStage Bytes := fun s =>
  ({ s with current := update s.current tag (some d) }, none)

/-! ## The database -/

/-- The digests the database has a representation of. digest.go:25-42 -/
def newDigest : Option Digest → Option Digest
  | none => none
  | some d => if d.algorithm = .sha384 then none else some d

/-- datastore/repository.go:82-130 -/
def dbDependencies (db : Database Bytes) : Dependencies where
  manifestExists := fun d =>
    if db.repository then
      match newDigest d with
      | none => .error .invalidDigest
      | some d => .ok (db.manifests d).isSome
    else .error .repositoryUnknown
  blobStat := fun d =>
    if db.repository then
      match newDigest d with
      | none => some .invalidDigest
      | some d => if (db.blobs d).isSome then none else some .blobUnknown
    else some .repositoryUnknown

/-- datastore/manifest.go:232-250 -/
def mapMediaType (t : MediaType) : Option PutError :=
  if t ∈ mediaTypes then none else some (.unknownMediaType t)

/-- The digest and the media type of a blob of the repository. handlers/manifests.go:836-857 -/
def dbFindRepositoryBlob (db : Database Bytes) (desc : Descriptor) :
    Except PutError (Digest × MediaType) :=
  match newDigest desc.digest with
  | none => .error .invalidDigest
  | some d =>
    match db.blobs d with
    | none => .error .blobNotFound
    | some t => .ok (d, t)

/-- With the media type of the configuration if there is one. datastore/manifest.go:252-298 -/
def createManifest (d : Digest) (row : Row Bytes) (configuration : Option MediaType)
    (db : Database Bytes) : Database Bytes × Option PutError :=
  match (mapMediaType row.mediaType).orElse fun _ => configuration.bind mapMediaType with
  | some e => (db, some e)
  | none => ({ db with manifests := update db.manifests d (some row) }, none)

/-- The first that is missing ends the upload. handlers/manifests.go:814-829 -/
def associateLayers (db : Database Bytes) (layers : List Descriptor) : Option PutError :=
  layers.findSome? fun l =>
    match dbFindRepositoryBlob db l with
    | .error e => some e
    | .ok _ => none

/-- The row is inserted before the layers are found, and not in one transaction with them.
handlers/manifests.go:771-834 -/
def dbPutManifestOCIOrSchema2 (blobs : Digest → Option Bytes) (m : Image) (d : Digest)
    (payload : Bytes) (db : Database Bytes) : Database Bytes × Option PutError :=
  let db := { db with repository := true }
  match dbFindRepositoryBlob db m.config with
  | .error e => (db, some e)
  | .ok (cfg, cfgType) =>
    if blobs cfg = none then (db, some .blobUnknown)
    else if (db.manifests d).isSome then (db, none)
    else
      let row := ⟨m.versioned.schemaVersion, m.versioned.mediaType, payload⟩
      match createManifest d row (some cfgType) db with
      | (db, some e) => (db, some e)
      | (db, none) => (db, associateLayers db m.layers)

/-- Made explicit where it is empty. handlers/manifests.go:919-924 -/
def listMediaType (l : ManifestList) : MediaType :=
  if l.versioned.mediaType = .empty then .imageIndex else l.versioned.mediaType

/-- handlers/manifests.go:859-882, 938-950 -/
def findReferences (db : Database Bytes) (references : List Descriptor) : Option PutError :=
  references.findSome? fun desc =>
    match newDigest desc.digest with
    | none => some .invalidDigest
    | some d => if (db.manifests d).isSome then none else some .manifestNotFound

/-- Without manifests the query ends in `manifest_id IN ()`, which the database refuses.
datastore/gcmanifesttask.go:113-146 -/
def findAndLockNBefore (references : List Descriptor) : Option PutError :=
  if references.isEmpty then some .syntaxError else none

/-- handlers/manifests.go:901-1008 -/
def dbPutManifestList (l : ManifestList) (d : Digest) (payload : Bytes) (db : Database Bytes) :
    Database Bytes × Option PutError :=
  match listValidate cfg.isCache (dbDependencies db) l with
  | some e => (db, some e)
  | none =>
    let db := { db with repository := true }
    if (db.manifests d).isSome then (db, none)
    else
      match (findReferences db l.references).or (findAndLockNBefore l.references) with
      | some e => (db, some e)
      | none => createManifest d ⟨l.versioned.schemaVersion, listMediaType l, payload⟩ none db

/-- handlers/manifests.go:658-669, 736-769 -/
def dbPutManifest (m : Manifest Bytes) (d : Digest) (payload : Bytes) : PutStage Bytes := fun s =>
  let (db, err) := match m with
    | .schema1 _ _ => (s.db, some .typeUnsupported)
    | .schema2 m _ =>
      match schema2Validate cfg cfg.isCache (dbDependencies s.db) m with
      | some e => (s.db, some e)
      | none => dbPutManifestOCIOrSchema2 s.blobs m d payload s.db
    | .oci m _ =>
      match ociValidate cfg cfg.isCache (dbDependencies s.db) m with
      | some e => (s.db, some e)
      | none => dbPutManifestOCIOrSchema2 s.blobs m d payload s.db
    | .list l _ => dbPutManifestList cfg l d payload s.db
  ({ s with db := db }, err)

/-- handlers/manifests.go:676-734 -/
def dbTagManifest (d : Digest) (tag : TagName) : PutStage Bytes := fun s =>
  match s.db.manifests d with
  | none => (s, some .manifestNotFound)
  | some _ => ({ s with db := { s.db with tags := update s.db.tags tag (some d) } }, none)

/-! ## Requests -/

inductive Reference where
  | tag (name : TagName)
  | digest (digest : Digest)
  deriving DecidableEq, Repr

/-- The errors of the API, with the messages that are fixed texts. -/
inductive Failure where
  | manifestUnknown (message : String)
  | manifestInvalid (message : String)
  | manifestBlobUnknown (digest : Option Digest)
  | digestInvalid
  | denied (message : String)
  | unknown
  deriving DecidableEq, Repr

/-- The answer to a request. `aborted` is a handler that panics. -/
inductive Response (Bytes : Type) where
  | ok (contentType : MediaType) (digest : Digest) (body : Bytes)
  | created (digest : Digest)
  | notModified
  | failed (errors : List Failure)
  | aborted
  deriving DecidableEq, Repr

/-- handlers/manifests.go:620-656 -/
def appendPutError : PutError → List Failure
  | .schemaV1Unsupported => [.manifestInvalid "manifest type unsupported"]
  | .typeUnsupported => [.manifestInvalid "manifest type unsupported"]
  | .verification errs => errs.map fun
    | .blobUnknown d => .manifestBlobUnknown d
    | .check .invalidDigest => .digestInvalid
    | .check _ => .unknown
  | _ => [.unknown]

/-- handlers/manifests.go:37 -/
def maxManifestBodySize : ℕ := 4 <<< 20

structure PutRequest (Bytes : Type) where
  reference : Reference
  contentType : Text
  body : Bytes

def Reference.tag? : Reference → Option TagName
  | .tag t => some t
  | .digest _ => none

/-- handlers/manifests.go:550-595 -/
def tagStages (d : Digest) : Reference → PutStage Bytes
  | .digest _ => fun s => (s, none)
  | .tag t =>
    (Stage.when cfg.writeFSMetadata (fsTag t d)).andThen <|
    Stage.when cfg.useDatabase (dbTagManifest d t)

/-- What an upload writes once it has passed the checks of the request.
handlers/manifests.go:535-595 -/
def putStages (reference : Reference) (m : Manifest Bytes) (d : Digest) (body : Bytes) :
    PutStage Bytes :=
  (Stage.when cfg.writeFSMetadata (fsPut F cfg m)).andThen <|
  (Stage.when cfg.useDatabase (dbPutManifest cfg m d body)).andThen <|
  tagStages cfg d reference

/-- handlers/manifests.go:481-618 -/
def putManifest (q : PutRequest Bytes) (s : Store Bytes) : Store Bytes × Response Bytes :=
  if F.size q.body > maxManifestBodySize then (s, .failed [.manifestInvalid ""])
  else
    match unmarshalManifest F q.contentType q.body with
    | .error _ => (s, .failed [.manifestInvalid ""])
    | .ok (m, d) =>
      if q.reference ≠ .digest d ∧ q.reference.tag? = none then (s, .failed [.digestInvalid])
      else
        match cfg.applyResourcePolicy m with
        | some message => (s, .failed [.denied message])
        | none =>
          match putStages F cfg q.reference m d q.body s with
          | (s', some e) => (s', .failed (appendPutError e))
          | (s', none) => (s', .created d)

/-! ## Fetching -/

inductive GetError where
  | etagMatches
  | manifestUnknownRevision
  | tagUnknown
  | schemaV1Unsupported
  | schemaVersion (version : Int)
  | unrecognizedType (mediaType : MediaType)
  | decode (e : DecodeError)
  | invalidDigest
  | panics
  deriving DecidableEq, Repr

/-- The decoders of the getters; the errors are passed on. -/
def decoded (r : Except DecodeError (Manifest Bytes)) : Except GetError (Manifest Bytes) :=
  match r with
  | .ok m => .ok m
  | .error e => .error (.decode e)

/-- The media types of lists are told apart by the request handler only. -/
def decodedList (content : Bytes) : Except GetError (Manifest Bytes) :=
  decoded ((manifestListUnmarshalJSON F content).map fun l => .list l content)

/-- The content of a revision, by what it says about itself. A payload without a media type that
does not decode as a list makes the type assertion on the result panic. manifeststore.go:91-126 -/
def fsPayloadToManifest (content : Bytes) : Except GetError (Manifest Bytes) :=
  match F.versioned content with
  | none => .error (.decode .json)
  | some v =>
    if v.schemaVersion = 1 then .error .schemaV1Unsupported
    else if v.schemaVersion = 2 then
      match v.mediaType with
      | .manifestV2 => decoded (schema2UnmarshalJSON F content)
      | .imageManifest => decoded (ocischemaUnmarshalJSON F content)
      | .manifestList | .imageIndex => decodedList F content
      | .empty =>
        match manifestListUnmarshalJSON F content with
        | .error _ => .error .panics
        | .ok l =>
          if l.manifests ≠ none then .ok (.list l content)
          else decoded (ocischemaUnmarshalJSON F content)
      | t => .error (.unrecognizedType t)
    else .error (.schemaVersion v.schemaVersion)

/-- manifeststore.go:74-126 -/
def fsGet (s : Store Bytes) (d : Digest) : Except GetError (Manifest Bytes) :=
  if manifestLink s d then
    match s.blobs d with
    | none => .error .manifestUnknownRevision
    | some content => fsPayloadToManifest F content
  else .error .manifestUnknownRevision

/-- handlers/manifests.go:409-469 -/
def dbPayloadToManifest (row : Row Bytes) : Except GetError (Manifest Bytes) :=
  if row.schemaVersion = 1 then .error .schemaV1Unsupported
  else if row.schemaVersion ≠ 2 then .error (.schemaVersion row.schemaVersion)
  else
    match row.mediaType with
    | .manifestV2 => decoded (schema2UnmarshalJSON F row.payload)
    | .imageManifest => decoded (ocischemaUnmarshalJSON F row.payload)
    | .manifestList | .imageIndex => decodedList F row.payload
    | .empty =>
      match manifestListUnmarshalJSON F row.payload with
      | .error e => .error (.decode e)
      | .ok l =>
        if l.manifests ≠ none then .ok (.list l row.payload)
        else decoded (ocischemaUnmarshalJSON F row.payload)
    | t => .error (.unrecognizedType t)

structure GetRequest where
  reference : Reference
  accept : List Text
  ifNoneMatch : List Digest

/-- handlers/manifests.go:189-199 -/
def GetRequest.accepted (g : GetRequest) : List MediaType :=
  (g.accept.flatMap fun h => h.splitOn ',').filterMap F.parseMediaType

/-- handlers/manifests.go:471-478 -/
def etagMatch (ifNoneMatch : List Digest) (d : Digest) : Bool := ifNoneMatch.contains d

/-- handlers/manifests.go:346-379, 400-407 -/
def getByDigest (ifNoneMatch : List Digest) (s : Store Bytes) (d : Digest) :
    Except GetError (Manifest Bytes) :=
  if etagMatch ifNoneMatch d then .error .etagMatches
  else if cfg.useDatabase then
    if s.db.repository then
      match newDigest (some d) with
      | none => .error .invalidDigest
      | some d =>
        match s.db.manifests d with
        | none => .error .manifestUnknownRevision
        | some row => dbPayloadToManifest F row
    else .error .manifestUnknownRevision
  else fsGet F s d

/-- handlers/manifests.go:305-344, 386-398 -/
def getByTag (ifNoneMatch : List Digest) (s : Store Bytes) (t : TagName) :
    Except GetError (Manifest Bytes × Digest) :=
  if cfg.useDatabase then
    if s.db.repository then
      match s.db.tags t with
      | none => .error .tagUnknown
      | some d =>
        match s.db.manifests d with
        | none => .error .tagUnknown
        | some row =>
          if etagMatch ifNoneMatch d then .error .etagMatches
          else (dbPayloadToManifest F row).map fun m => (m, d)
    else .error .tagUnknown
  else
    match s.current t with
    | none => .error .tagUnknown
    | some d => (getByDigest F cfg ifNoneMatch s d).map fun m => (m, d)

/-- handlers/manifests.go:41-50 -/
inductive StorageType where
  | manifestSchema1
  | manifestSchema2
  | manifestlistSchema
  | ociImageManifestSchema
  | ociImageIndexSchema
  deriving DecidableEq, Repr

/-- handlers/manifests.go:127-142 -/
def storageType : Manifest Bytes → StorageType
  | .schema1 _ _ => .manifestSchema1
  | .schema2 _ _ => .manifestSchema2
  | .oci _ _ => .ociImageManifestSchema
  | .list l _ =>
    if l.versioned.mediaType = .manifestList then .manifestlistSchema
    else if l.versioned.mediaType = .imageIndex then .ociImageIndexSchema
    else .manifestSchema1

/-- handlers/manifests.go:184-226 -/
def supports (accepted : List MediaType) : StorageType → Bool
  | .manifestSchema1 => false
  | .manifestSchema2 => !accepted.isEmpty
  | .manifestlistSchema => accepted.contains .manifestList
  | .ociImageManifestSchema => accepted.contains .imageManifest
  | .ociImageIndexSchema => accepted.contains .imageIndex

/-- handlers/manifests.go:111-125 -/
def getFailure : GetError → Response Bytes
  | .etagMatches => .notModified
  | .manifestUnknownRevision => .failed [.manifestUnknown ""]
  | .tagUnknown => .failed [.manifestUnknown ""]
  | .invalidDigest => .failed [.unknown]
  | .schemaV1Unsupported => .failed [.manifestInvalid "Schema 1 manifest not supported"]
  | .panics => .aborted
  | _ => .failed [.unknown]

def serve (m : Manifest Bytes) (d : Digest) : Response Bytes := .ok m.payload.1 d m.payload.2

/-- Serve the image of the default platform in place of a list. handlers/manifests.go:151-171,
228-258 -/
def rewriteManifestList (s : Store Bytes) (l : ManifestList) : Response Bytes :=
  match l.elements.find? fun m => m.architecture = "amd64" ∧ m.os = "linux" with
  | none => .failed [.manifestUnknown ""]
  | some m =>
    match m.descriptor.digest with
    | none => .failed [.manifestUnknown ""]
    | some d =>
      match getByDigest F cfg [] s d with
      | .error .manifestUnknownRevision => .failed [.manifestUnknown ""]
      | .error _ => .failed [.unknown]
      | .ok m => serve m d

/-- handlers/manifests.go:127-181 -/
def respond (g : GetRequest) (s : Store Bytes) (m : Manifest Bytes) (d : Digest) : Response Bytes :=
  let accepted := g.accepted F
  match storageType m with
  | .manifestSchema1 => .failed [.manifestInvalid "Schema 1 manifest not supported"]
  | .ociImageManifestSchema =>
    if supports accepted .ociImageManifestSchema then serve m d
    else .failed
      [.manifestUnknown "OCI manifest found, but accept header does not support OCI manifests"]
  | .ociImageIndexSchema =>
    if supports accepted .ociImageIndexSchema then serve m d
    else .failed
      [.manifestUnknown "OCI index found, but accept header does not support OCI indexes"]
  | .manifestlistSchema =>
    match m with
    | .list l _ =>
      if g.reference.tag? ≠ none ∧ supports accepted .manifestlistSchema = false then
        rewriteManifestList F cfg s l
      else serve m d
    | _ => serve m d
  | .manifestSchema2 => serve m d

/-- handlers/manifests.go:90-182 -/
def getManifest (g : GetRequest) (s : Store Bytes) : Response Bytes :=
  match g.reference with
  | .tag t =>
    match getByTag F cfg g.ifNoneMatch s t with
    | .error e => getFailure e
    | .ok (m, d) => respond F cfg g s m d
  | .digest d =>
    match getByDigest F cfg g.ifNoneMatch s d with
    | .error e => getFailure e
    | .ok m => respond F cfg g s m d

/-! ## The life of a repository -/

inductive Erasure where
  | blob (digest : Digest)
  | layer (digest : Digest)
  | revision (digest : Digest)
  | current (tag : TagName)
  | row (digest : Digest)
  | tag (tag : TagName)
  | repositoryBlob (digest : Digest)
  deriving DecidableEq, Repr

/-- The tags of a row go with it. -/
def erase (s : Store Bytes) : Erasure → Store Bytes
  | .blob d => { s with blobs := update s.blobs d none }
  | .layer d => { s with layers := update s.layers d false }
  | .revision d => { s with revisions := update s.revisions d false }
  | .current t => { s with current := update s.current t none }
  | .row d =>
    { s with
      db :=
        { s.db with
          manifests := update s.db.manifests d none
          tags := fun t => if s.db.tags t = some d then none else s.db.tags t } }
  | .tag t => { s with db := { s.db with tags := update s.db.tags t none } }
  | .repositoryBlob d => { s with db := { s.db with blobs := update s.db.blobs d none } }

/-- blobwriter.go:59-110, blobupload.go:301-320 -/
def uploadBlob (p : Bytes) (s : Store Bytes) : Store Bytes :=
  let d := F.fromBytes p
  { s with
    blobs := update s.blobs d (some ((s.blobs d).getD p))
    layers := if cfg.writeFSMetadata then update s.layers d true else s.layers
    db :=
      if cfg.useDatabase then
        { s.db with
          repository := true
          blobs := update s.db.blobs d (some .octetStream) }
      else s.db }

inductive Action (Bytes : Type) where
  | put (q : PutRequest Bytes)
  | upload (p : Bytes)
  | erase (e : Erasure)

def step (s : Store Bytes) : Action Bytes → Option (Store Bytes)
  | .put q => some (putManifest F cfg q s).1
  | .upload p => some (uploadBlob F cfg p s)
  | .erase e => some (erase s e)

end ContainerRegistry.Model.Manifests
