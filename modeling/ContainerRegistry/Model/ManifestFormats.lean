import ContainerRegistry.Model.Schema

/-!
# Manifest formats

The manifest types and how a payload is decoded into them: `manifests.go` and the packages
`manifest/schema1`, `manifest/schema2`, `manifest/ocischema` and `manifest/manifestlist`. The
canonical bytes of a decoded manifest are its payload.

`Formats` is what is taken from outside the repository: the hash function, the decoding of JSON, the
signatures of schema 1 and the parsing of media types. Of a structure, the fields are modelled that
the handlers read.
-/

namespace ContainerRegistry.Model.Manifests

/-- The media types of the `media_types` table, the other ones a manifest may be uploaded with,
and the empty string. -/
inductive MediaType where
  | empty
  | json
  | manifestV1
  | signedManifestV1
  | manifestV2
  | manifestList
  | dockerLayer
  | dockerLayerGzip
  | dockerForeignLayer
  | dockerConfig
  | dockerLayerV1
  | dockerPlugin
  | ociLayer
  | ociLayerGzip
  | ociLayerZstd
  | ociNondistributableLayer
  | ociNondistributableLayerGzip
  | ociConfig
  | imageManifest
  | imageIndex
  | helmConfig
  | tarGzip
  | octetStream
  | other (name : String)
  deriving DecidableEq, Repr

def mediaTypes : List MediaType :=
  [.manifestV1, .signedManifestV1, .manifestV2, .manifestList, .dockerLayer, .dockerLayerGzip,
    .dockerForeignLayer, .dockerConfig, .dockerLayerV1, .dockerPlugin, .ociLayer, .ociLayerGzip,
    .ociLayerZstd, .ociNondistributableLayer, .ociNondistributableLayerGzip, .ociConfig,
    .imageManifest, .imageIndex, .helmConfig, .tarGzip, .octetStream]

/-- The media types of the manifests the registry stores: schema 2, manifest list, OCI image
manifest and OCI index. -/
def uploadTypes : List MediaType := [.manifestV2, .manifestList, .imageManifest, .imageIndex]

/-! ## Structures -/

/-- versioned.go:6-12 -/
structure Versioned where
  schemaVersion : Int
  mediaType : MediaType
  deriving DecidableEq, Repr

/-- A descriptor; a text that is no digest is `none`. blobs.go:77-100 -/
structure Descriptor where
  mediaType : MediaType
  digest : Option Digest
  urls : List String
  deriving DecidableEq, Repr

/-- The image manifests of schema 2 and of OCI. schema2/manifest.go:63-72,
ocischema/manifest.go:41-53 -/
structure Image where
  versioned : Versioned
  config : Descriptor
  layers : List Descriptor
  deriving DecidableEq, Repr

/-- schema2/manifest.go:75-80, ocischema/manifest.go:56-61 -/
def Image.references (m : Image) : List Descriptor := m.config :: m.layers

/-- manifestlist/manifestlist.go:81-113 -/
structure ManifestDescriptor where
  descriptor : Descriptor
  architecture : String
  os : String
  deriving DecidableEq, Repr

/-- manifestlist/manifestlist.go:116-121 -/
structure ManifestList where
  versioned : Versioned
  manifests : Option (List ManifestDescriptor)
  deriving DecidableEq, Repr

def ManifestList.elements (l : ManifestList) : List ManifestDescriptor := l.manifests.getD []

/-- manifestlist/manifestlist.go:125-132 -/
def ManifestList.references (l : ManifestList) : List Descriptor :=
  l.elements.map ManifestDescriptor.descriptor

abbrev Text := List Char

structure Formats (Bytes : Type) where
  -- crypto/sha256
  hash : Bytes → ℕ
  hash_injective : Function.Injective hash
  size : Bytes → ℕ
  -- encoding/json
  versioned : Bytes → Option Versioned
  schema2 : Bytes → Option Image
  ocischema : Bytes → Option Image
  manifestList : Bytes → Option ManifestList
  -- every structure embeds `manifest.Versioned`, which reads the same two fields everywhere
  schema2_versioned : ∀ p m, schema2 p = some m → versioned p = some m.versioned
  ocischema_versioned : ∀ p m, ocischema p = some m → versioned p = some m.versioned
  manifestList_versioned : ∀ p l, manifestList p = some l → versioned p = some l.versioned
  -- libtrust: the signed bytes of a schema 1 manifest
  signed : Bytes → Option Bytes
  -- mime.ParseMediaType, and the plain name of a media type
  parseMediaType : Text → Option MediaType
  name : MediaType → Text
  parse_name : ∀ t ∈ uploadTypes, parseMediaType (name t) = some t
  name_no_comma : ∀ t ∈ uploadTypes, ',' ∉ name t

variable {Bytes : Type}

variable (F : Formats Bytes)

def Formats.fromBytes (p : Bytes) : Digest := ⟨.sha256, F.hash p⟩

/-! ## Manifests -/

/-- A decoded manifest with the bytes it was decoded from. -/
inductive Manifest (Bytes : Type) where
  | schema1 (all canonical : Bytes)
  | schema2 (m : Image) (canonical : Bytes)
  | oci (m : Image) (canonical : Bytes)
  | list (l : ManifestList) (canonical : Bytes)

/-- The media type and the bytes a manifest is served with. schema1/manifest.go:168-170,
schema2/manifest.go:141-143, ocischema/manifest.go:122-124, manifestlist/manifestlist.go:207-216 -/
def Manifest.payload : Manifest Bytes → MediaType × Bytes
  | .schema1 all _ => (.signedManifestV1, all)
  | .schema2 m canonical => (m.versioned.mediaType, canonical)
  | .oci _ canonical => (.imageManifest, canonical)
  | .list l canonical =>
    (if l.versioned.mediaType = .empty then .imageIndex else l.versioned.mediaType, canonical)

inductive DecodeError where
  | contentType
  | json
  | mediaType (expected found : MediaType)
  deriving DecidableEq, Repr

abbrev Decoded (Bytes : Type) := Except DecodeError (Manifest Bytes × Digest)

/-- schema2/manifest.go:108-127 -/
def schema2UnmarshalJSON (b : Bytes) : Except DecodeError (Manifest Bytes) :=
  match F.schema2 b with
  | none => .error .json
  | some m =>
    if m.versioned.mediaType ≠ .manifestV2 then
      .error (.mediaType .manifestV2 m.versioned.mediaType)
    else .ok (.schema2 m b)

/-- ocischema/manifest.go:89-108 -/
def ocischemaUnmarshalJSON (b : Bytes) : Except DecodeError (Manifest Bytes) :=
  match F.ocischema b with
  | none => .error .json
  | some m =>
    if m.versioned.mediaType ≠ .empty ∧ m.versioned.mediaType ≠ .imageManifest then
      .error (.mediaType .imageManifest m.versioned.mediaType)
    else .ok (.oci m b)

/-- manifestlist/manifestlist.go:179-193 -/
def manifestListUnmarshalJSON (b : Bytes) : Except DecodeError ManifestList :=
  match F.manifestList b with
  | none => .error .json
  | some l => .ok l

/-- manifestlist/manifestlist.go:34-50 -/
def manifestListFunc (b : Bytes) : Decoded Bytes :=
  (manifestListUnmarshalJSON F b).bind fun l =>
    if l.versioned.mediaType ≠ .manifestList then
      .error (.mediaType .manifestList l.versioned.mediaType)
    else .ok (.list l b, F.fromBytes b)

/-- manifestlist/manifestlist.go:56-72 -/
def imageIndexFunc (b : Bytes) : Decoded Bytes :=
  (manifestListUnmarshalJSON F b).bind fun l =>
    if l.versioned.mediaType ≠ .empty ∧ l.versioned.mediaType ≠ .imageIndex then
      .error (.mediaType .imageIndex l.versioned.mediaType)
    else .ok (.list l b, F.fromBytes b)

/-- schema2/manifest.go:46-55 -/
def schema2Func (b : Bytes) : Decoded Bytes :=
  (schema2UnmarshalJSON F b).map fun m => (m, F.fromBytes b)

/-- ocischema/manifest.go:24-33 -/
def ocischemaFunc (b : Bytes) : Decoded Bytes :=
  (ocischemaUnmarshalJSON F b).map fun m => (m, F.fromBytes b)

/-- schema1/manifest.go:32-45 -/
def schema1Func (b : Bytes) : Decoded Bytes :=
  match F.signed b with
  | none => .error .json
  | some canonical => .ok (.schema1 b canonical, F.fromBytes canonical)

/-- Schema 1 is the default. manifests.go:106-112 -/
def mappings : MediaType → Bytes → Decoded Bytes
  | .manifestV2 => schema2Func F
  | .imageManifest => ocischemaFunc F
  | .manifestList => manifestListFunc F
  | .imageIndex => imageIndexFunc F
  | _ => schema1Func F

/-- An empty header names the empty type. manifests.go:97-104 -/
def contentMediaType (ctHeader : Text) : Option MediaType :=
  if ctHeader = [] then some .empty else F.parseMediaType ctHeader

/-- manifests.go:94-115 -/
def unmarshalManifest (ctHeader : Text) (p : Bytes) : Decoded Bytes :=
  match contentMediaType F ctHeader with
  | none => .error .contentType
  | some mediaType => mappings F mediaType p

end ContainerRegistry.Model.Manifests
