import ContainerRegistry.Model.Paths

/-!
# Schema 1 manifests from an image configuration

The builder of `manifest/schema1/config_builder.go`. JSON coding, hashing and signing are those of
an `Env`, and the blob service answers with the digest it is asked for, or with that of the content.
The two lists that are filled from the end grow at the front.
-/

namespace ContainerRegistry.Model.Schema1Builder

open Paths Function

/-- What `AppendReference` accepts. -/
abbrev Digest := { d : Str // validDigest d = true }

/-- `Hex`, which panics without the colon that a valid digest has. -/
def hex (d : Digest) : Str := (splitDigest d.1).2

/-- config_builder.go:27-29 -/
def digestSHA256GzippedEmptyTar : Digest :=
  ⟨"sha256:a3ed95caeb02ffe68cdd9fd84406680ae93d633cb16422d00e8a7c22955b46d4".toList, by decide⟩

structure ImageRootFS where
  diffIDs : List Str
  baseLayer : Str

structure ImageHistory where
  created : Str
  author : Str
  createdBy : Str
  comment : Str
  emptyLayer : Bool

structure ImageConfig where
  rootFS : Option ImageRootFS
  history : List ImageHistory
  architecture : Str

structure V1Compatibility where
  id : Str
  parent : Str
  comment : Str
  created : Str
  cmd : List Str
  author : Str
  throwAway : Bool

inductive RawMessage where
  | given (json : Str)
  | text (value : Str)
  | true

/-- What an entry is the coding of: for the top one, the configuration with some keys replaced. -/
inductive History where
  | layer (v1 : V1Compatibility)
  | top (config : Str → Option RawMessage)

structure Manifest where
  name : Str
  tag : Str
  architecture : Str
  fsLayers : List Digest
  history : List History

inductive Failure where
  | panics
  | text (message : String)
  /-- `number of descriptors and number of layers in rootfs must match: len(%v) != len(%v)` -/
  | mismatch (diffIDs : List Str) (descriptors : List Digest)
  | json
  | blobService
  | signature

structure Env where
  unmarshal : Str → Option ImageConfig
  unmarshalMap : Str → Option (Str → Option RawMessage)
  marshals : History → Bool
  fromBytes : Str → Digest
  /-- The first 32 bytes of SHA-384, in hexadecimal digits. -/
  baseID : Str → Str
  signs : Manifest → Bool

inductive Stat where
  | found
  | unknown
  | failed

structure Builder where
  stat : Stat
  puts : Bool
  configJSON : Str
  name : Str
  tag : Option Str
  descriptors : List Digest
  /-- `emptyTarDigest` is set. -/
  emptyTar : Bool

/-- config_builder.go:241-251 -/
def appendReference (mb : Builder) (d : Str) : Option Builder :=
  if h : validDigest d = true then some { mb with descriptors := mb.descriptors ++ [⟨d, h⟩] }
  else none

variable (env : Env) (mb : Builder)

/-- config_builder.go:211-239 -/
def emptyTar (cached : Bool) : Except Failure Digest :=
  if cached then .ok digestSHA256GzippedEmptyTar else
  match mb.stat with
  | .found => .ok digestSHA256GzippedEmptyTar
  | .unknown => if mb.puts then .ok digestSHA256GzippedEmptyTar else .error .blobService
  | .failed => .error .blobService

/-- config_builder.go:258-279 -/
def makeV1ConfigFromConfig (v1ID parentV1ID : Str) (throwaway : Bool) : Except Failure History :=
  match env.unmarshalMap mb.configJSON with
  | none => .error .json
  | some config =>
    let config := update (update config "rootfs".toList none) "history".toList none
    let config := update config "id".toList (some (.text v1ID))
    let config :=
      if parentV1ID = [] then config else update config "parent".toList (some (.text parentV1ID))
    let config := if throwaway then update config "throwaway".toList (some .true) else config
    if env.marshals (.top config) then .ok (.top config) else .error .json

/-- The variables of the loop. -/
structure Layers where
  parent : Str
  layerCounter : ℕ
  emptyTar : Bool
  fsLayers : List Digest
  history : List History

/-- config_builder.go:122-133, 168-178 -/
def blobSum (rootFS : ImageRootFS) (s : Layers) (h : ImageHistory) :
    Except Failure (Digest × Layers) :=
  if h.emptyLayer then do
    let blobsum ← emptyTar mb s.emptyTar
    return (blobsum, { s with emptyTar := true })
  else if rootFS.diffIDs.length ≤ s.layerCounter then
    .error (.text "too many non-empty layers in History section")
  else
    match mb.descriptors[s.layerCounter]? with
    | none => .error .panics
    | some d => .ok (d, { s with layerCounter := s.layerCounter + 1 })

/-- One round of the loop, which is the first one if there is no entry yet.
config_builder.go:121-164 -/
def addLayer (rootFS : ImageRootFS) (s : Layers) (h : ImageHistory) : Except Failure Layers := do
  let (blobsum, s) ← blobSum mb rootFS s h
  let v1ID := hex (env.fromBytes (hex blobsum ++ ' ' :: s.parent))
  let parent :=
    if s.history.isEmpty ∧ rootFS.baseLayer ≠ [] then env.baseID rootFS.baseLayer else s.parent
  let v1 := .layer ⟨v1ID, parent, h.comment, h.created, [h.createdBy], h.author, h.emptyLayer⟩
  if env.marshals v1 then
    .ok { s with parent := v1ID, fsLayers := blobsum :: s.fsLayers, history := v1 :: s.history }
  else .error .json

/-- config_builder.go:64-209 -/
def build : Except Failure Manifest :=
  match env.unmarshal mb.configJSON with
  | none => .error .json
  | some img =>
    match img.history.getLast? with
    | none => .error (.text "empty history when trying to create schema1 manifest")
    | some latestHistory =>
      match img.rootFS with
      | none => .error .panics
      | some rootFS =>
        if rootFS.diffIDs.length ≠ mb.descriptors.length then
          .error (.mismatch rootFS.diffIDs mb.descriptors)
        else do
          let s ← img.history.dropLast.foldlM (addLayer env mb rootFS) ⟨[], 0, mb.emptyTar, [], []⟩
          let (blobsum, s) ← blobSum mb rootFS s latestHistory
          let dgst := env.fromBytes (hex blobsum ++ ' ' :: s.parent ++ ' ' :: mb.configJSON)
          let top ← makeV1ConfigFromConfig env mb (hex dgst) s.parent latestHistory.emptyLayer
          let mfst := ⟨mb.name, mb.tag.getD [], img.architecture, blobsum :: s.fsLayers,
            top :: s.history⟩
          if env.signs mfst then .ok mfst else .error .signature

end ContainerRegistry.Model.Schema1Builder
