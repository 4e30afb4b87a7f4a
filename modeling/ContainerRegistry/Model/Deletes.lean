import ContainerRegistry.Library.Stages
import ContainerRegistry.Model.Schema

/-!
# Deleting blobs, tags and manifests

The delete handlers of `handlers/blob.go`, `handlers/tags.go` and `handlers/manifests.go` for one
repository whose metadata is on the filesystem and in the database.

`Faults` says which steps of a request fail, and whether a step that fails has its effect all the
same; removing a tag may fail with a part of it removed. A transaction has no effect before it is
committed. Requests come one after the other.

The structures carry that the listing of the tags is complete, and the foreign keys.
-/

namespace ContainerRegistry.Model.Deletes

open Library Function

/-- With the blobs of the common storage and the descriptor cache. -/
structure Filesystem where
  data : Digest → Bool
  cached : Digest → Bool
  -- link files
  layers : Digest → Bool
  revisions : Digest → Bool
  -- the directory of the repository, and in it one for each tag: the current link and all else
  directory : Bool
  names : List TagName
  current : TagName → Option Digest
  index : TagName → Bool
  named : ∀ t, current t ≠ none → t ∈ names
  housed : ∀ t, current t ≠ none → directory = true

structure Database where
  repository : Bool
  blobs : Digest → Bool
  manifests : Digest → Bool
  -- the manifests that are lists, and the pairs of a list and a manifest of it
  isList : Digest → Bool
  references : List (Digest × Digest)
  tags : TagName → Option Digest
  blobs_repository : ∀ d, blobs d = true → repository = true
  manifests_repository : ∀ d, manifests d = true → repository = true
  tags_manifests : ∀ t d, tags t = some d → manifests d = true

structure Metadata where
  fs : Filesystem
  db : Database

/-! ## What is removed -/

theorem of_update_false {f : Digest → Bool} {d d'}
    (h : update f d false d' = true) : f d' = true := by
  by_cases hd : d' = d
  · rw [hd, update_self] at h
    cases h
  · rwa [update_of_ne hd] at h

variable {t t' : TagName} {f : TagName → Option Digest}

theorem of_update_tag {d} (h : update f t none t' = some d) : f t' = some d := by
  by_cases ht : t' = t
  · rw [ht, update_self] at h
    cases h
  · rwa [update_of_ne ht] at h

def removeCurrent (f : TagName → Option Digest) (t : TagName) (removed : Bool) :
    TagName → Option Digest :=
  if removed then update f t none else f

theorem of_removeCurrent {removed d} (h : removeCurrent f t removed t' = some d) :
    f t' = some d := by
  unfold removeCurrent at h
  split at h
  · exact of_update_tag h
  · exact h

theorem ne_none_of_removeCurrent {removed} (h : removeCurrent f t removed t' ≠ none) :
    f t' ≠ none := by
  obtain ⟨d, hd⟩ := Option.ne_none_iff_exists'.1 h
  rw [of_removeCurrent hd]
  exact Option.some_ne_none d

def Filesystem.removeTag (fs : Filesystem) (t : TagName) (current index : Bool) : Filesystem :=
  { fs with
    current := removeCurrent fs.current t current
    index := if index then update fs.index t false else fs.index
    named := fun t' h => fs.named t' (ne_none_of_removeCurrent h)
    housed := fun t' h => fs.housed t' (ne_none_of_removeCurrent h) }

/-- datastore/repository.go:946-965 -/
def Database.unlinkBlob (db : Database) (d : Digest) : Database :=
  { db with
    blobs := update db.blobs d false
    blobs_repository := fun d' h => db.blobs_repository d' (of_update_false h) }

/-- datastore/repository.go:967-984 -/
def Database.deleteTag (db : Database) (t : TagName) : Database :=
  { db with
    tags := update db.tags t none
    tags_manifests := fun t' d h => db.tags_manifests t' d (of_update_tag h) }

/-- The tags of a manifest and its references go with it. datastore/repository.go:986-1013,
20210503152550_create_tags_table.go:19 -/
def Database.deleteManifest (db : Database) (d : Digest) : Database :=
  { db with
    manifests := update db.manifests d false
    references := db.references.filter fun r => r.1 ≠ d
    tags := fun t => if db.tags t = some d then none else db.tags t
    manifests_repository := fun d' h => db.manifests_repository d' (of_update_false h)
    tags_manifests := by
      intro t d' h
      split at h
      · cases h
      next hne =>
        have hd : d' ≠ d := fun hd => hne (hd ▸ h)
        rw [update_of_ne hd]
        exact db.tags_manifests t d' h }

/-! ## Steps -/

inductive Step where
  -- the storage driver and the cache
  | readRevisionLink
  | readLayerLink
  | statData
  | cacheStat
  | cacheSet
  | clearCache
  | deleteRevisionLink
  | deleteLayerLink
  | listTags
  | readTag (tag : TagName)
  | statRepository
  -- the database
  | findRepository
  | findTag
  | findManifest
  | unlinkBlob
  | beginTx
  | references
  | lockTasks
  | delete
  | commit
  deriving DecidableEq, Repr

/-- The steps that fail in a request, and whether they have their effect all the same. A tag may
be removed in part: the current link, and the rest of the directory. -/
structure Faults where
  fails : Step → Option Bool
  untag : TagName → Option (Bool × Bool)

/-- The errors of the stores. Every fault is `internal`. -/
inductive DeleteError where
  | unsupported
  | blobUnknown
  | repositoryUnknown
  | tagUnknown
  | manifestNotFound
  | manifestReferencedInList
  | internal
  deriving DecidableEq, Repr

abbrev DeleteStage := Stage Metadata DeleteError

variable (faults : Faults)

def ask (step : Step) (answer : Metadata → Option DeleteError) : DeleteStage :=
  Stage.check fun s => if (faults.fails step).isSome then some .internal else answer s

def perform (step : Step) (change : Metadata → Metadata) : DeleteStage := fun s =>
  match faults.fails step with
  | none => (change s, none)
  | some done => (if done then change s else s, some .internal)

structure Config where
  deleteEnabled : Bool
  isCache : Bool
  writeFSMetadata : Bool
  useDatabase : Bool

def refuse (c : Bool) : DeleteStage := Stage.check fun _ => if c then some .unsupported else none

/-! ## The filesystem -/

/-- linkedblobstore.go:433 -/
def statData (d : Digest) (fs : Filesystem) : Option DeleteError :=
  if (faults.fails .statData).isSome then some .internal
  else if fs.data d then none
  else some .blobUnknown

/-- linkedblobstore.go:398-434 -/
def statLayer (d : Digest) (fs : Filesystem) : Option DeleteError :=
  if (faults.fails .readLayerLink).isSome then some .internal
  else if fs.layers d then statData faults d fs
  else some .blobUnknown

/-- Manifests are looked for among the revisions and then among the layers.
linkedblobstore.go:398-434, storage/registry.go:257-262 -/
def statRevision (d : Digest) (fs : Filesystem) : Option DeleteError :=
  if (faults.fails .readRevisionLink).isSome then some .internal
  else if fs.revisions d then statData faults d fs
  else statLayer faults d fs

/-- An error of the cache is not passed on. cachedblobdescriptorstore.go:57-94 -/
def cachedStat (d : Digest) : DeleteStage := fun s =>
  if (faults.fails .cacheStat).isSome then (s, statLayer faults d s.fs)
  else if s.fs.cached d then (s, none)
  else
    match statLayer faults d s.fs with
    | some e => (s, some e)
    | none =>
      if (faults.fails .cacheSet).isSome then (s, none)
      else ({ s with fs := { s.fs with cached := update s.fs.cached d true } }, none)

/-- One that is missing is no error. linkedblobstore.go:438-458 -/
def deleteLayerLink (d : Digest) : DeleteStage :=
  perform faults .deleteLayerLink fun s =>
    { s with fs := { s.fs with layers := update s.fs.layers d false } }

/-- linkedblobstore.go:438-458 -/
def deleteRevisionLink (d : Digest) : DeleteStage :=
  perform faults .deleteRevisionLink fun s =>
    { s with fs := { s.fs with revisions := update s.fs.revisions d false } }

/-- linkedblobstore.go:224-241, cachedblobdescriptorstore.go:96-107 -/
def fsDeleteBlob (cfg : Config) (faults : Faults) (d : Digest) : DeleteStage :=
  (refuse !cfg.deleteEnabled).andThen <|
  (cachedStat faults d).andThen <|
  (perform faults .clearCache fun s =>
    { s with fs := { s.fs with cached := update s.fs.cached d false } }).andThen <|
  deleteLayerLink faults d

/-- Manifests have no cache. linkedblobstore.go:224-241 -/
def fsDeleteManifest (cfg : Config) (faults : Faults) (d : Digest) : DeleteStage :=
  (refuse !cfg.deleteEnabled).andThen <|
  (Stage.check fun s => statRevision faults d s.fs).andThen <|
  (deleteRevisionLink faults d).andThen <|
  deleteLayerLink faults d

/-- tagstore.go:142-144 -/
def removeTagDirectory (t : TagName) : DeleteStage := fun s =>
  match faults.untag t with
  | some (current, index) => ({ s with fs := s.fs.removeTag t current index }, some .internal)
  | none =>
    if s.fs.current t ≠ none ∨ s.fs.index t then
      ({ s with fs := s.fs.removeTag t true true }, none)
    else (s, some .tagUnknown)

/-- tagstore.go:120-147 -/
def untag (t : TagName) : DeleteStage :=
  (ask faults .statRepository fun s =>
    if s.fs.directory then none else some .repositoryUnknown).andThen <|
  removeTagDirectory faults t

/-- tagstore.go:170-206 -/
def lookup (fs : Filesystem) (d : Digest) : List TagName :=
  fs.names.filter fun t => fs.current t = some d

/-- tagstore.go:170-206 -/
def lookupFails (fs : Filesystem) : Option DeleteError :=
  if (faults.fails .listTags).isSome then some .internal
  else if fs.names.any fun t => (faults.fails (.readTag t)).isSome then some .internal
  else none

/-- The tags of a manifest; no error of a tag is told from any other.
handlers/manifests.go:1183-1196 -/
def untagManifest (d : Digest) : DeleteStage :=
  (Stage.check fun s => lookupFails faults s.fs).andThen fun s =>
  Stage.forEach (fun t => (untag faults t).mapError fun _ => .internal) (lookup s.fs d) s

/-! ## The database -/

/-- handlers/blob.go:132-159 -/
def dbDeleteBlob (cfg : Config) (faults : Faults) (d : Digest) : DeleteStage :=
  (refuse !cfg.deleteEnabled).andThen <|
  (ask faults .findRepository fun s =>
    if s.db.repository then none else some .repositoryUnknown).andThen fun s =>
  match faults.fails .unlinkBlob with
  | some done => (if done then { s with db := s.db.unlinkBlob d } else s, some .internal)
  | none =>
    if s.db.blobs d then ({ s with db := s.db.unlinkBlob d }, none) else (s, some .blobUnknown)

/-- handlers/tags.go:169-230 -/
def dbDeleteTag (t : TagName) : DeleteStage :=
  (ask faults .findRepository fun s =>
    if s.db.repository then none else some .repositoryUnknown).andThen <|
  (ask faults .findTag fun s => if s.db.tags t = none then some .tagUnknown else none).andThen <|
  (ask faults .beginTx fun _ => none).andThen <|
  (ask faults .lockTasks fun _ => none).andThen <|
  (ask faults .delete fun s => if s.db.tags t = none then some .tagUnknown else none).andThen <|
  perform faults .commit fun s => { s with db := s.db.deleteTag t }

/-- Deleting a manifest that a list refers to violates a foreign key.
datastore/repository.go:986-1013 -/
def deleteManifestFails (db : Database) (d : Digest) : Option DeleteError :=
  if db.manifests d then
    if db.references.any fun r => r.2 = d then some .manifestReferencedInList else none
  else some .manifestNotFound

/-- The review tasks of the manifests of a list are locked, if it has any.
handlers/manifests.go:1117-1147 -/
def lockReferences (d : Digest) : DeleteStage := fun s =>
  Stage.when (s.db.isList d)
    ((ask faults .references fun _ => none).andThen
      (Stage.when (s.db.references.any fun r => r.1 = d) (ask faults .lockTasks fun _ => none))) s

/-- handlers/manifests.go:1087-1164 -/
def dbDeleteManifest (cfg : Config) (faults : Faults) (d : Digest) : DeleteStage :=
  (refuse !cfg.deleteEnabled).andThen <|
  (ask faults .findRepository fun s => if s.db.repository then none else some .internal).andThen <|
  (ask faults .findManifest fun s =>
    if s.db.manifests d then none else some .manifestNotFound).andThen <|
  (ask faults .beginTx fun _ => none).andThen <|
  (lockReferences faults d).andThen <|
  (ask faults .delete fun s => deleteManifestFails s.db d).andThen <|
  perform faults .commit fun s => { s with db := s.db.deleteManifest d }

/-! ## Handlers -/

inductive Object where
  | blob (digest : Digest)
  | tag (name : TagName)
  | manifest (digest : Digest)
  deriving DecidableEq, Repr

/-- The one of blobs has an error for a configuration without any store. handlers/blob.go:198-220,
handlers/tags.go:233-257, handlers/manifests.go:1166-1209 -/
def delete (cfg : Config) (faults : Faults) : Object → DeleteStage
  | .blob d =>
    (Stage.when cfg.writeFSMetadata (fsDeleteBlob cfg faults d)).andThen <|
    (Stage.when cfg.useDatabase (dbDeleteBlob cfg faults d)).andThen <|
    Stage.check fun _ => if cfg.writeFSMetadata || cfg.useDatabase then none else some .internal
  | .tag t =>
    (refuse cfg.isCache).andThen <|
    (Stage.when cfg.writeFSMetadata (untag faults t)).andThen <|
    Stage.when cfg.useDatabase (dbDeleteTag faults t)
  | .manifest d =>
    (Stage.when cfg.writeFSMetadata
      ((fsDeleteManifest cfg faults d).andThen (untagManifest faults d))).andThen <|
    Stage.when cfg.useDatabase (dbDeleteManifest cfg faults d)

inductive Answer where
  | accepted
  | unsupported
  | blobUnknown
  | nameUnknown
  | manifestUnknown
  | manifestReferencedInList
  | unknown
  deriving DecidableEq, Repr

/-- handlers/blob.go:173-196, handlers/tags.go:259-269, handlers/manifests.go:1211-1226 -/
def answer : Object → Option DeleteError → Answer
  | _, none => .accepted
  | .blob _, some .unsupported => .unsupported
  | .blob _, some .blobUnknown => .blobUnknown
  | .blob _, some .repositoryUnknown => .nameUnknown
  | .tag _, some .unsupported => .unsupported
  | .tag _, some .repositoryUnknown => .nameUnknown
  | .tag _, some .tagUnknown => .manifestUnknown
  | .manifest _, some .unsupported => .unsupported
  | .manifest _, some .blobUnknown => .manifestUnknown
  | .manifest _, some .manifestNotFound => .manifestUnknown
  | .manifest _, some .manifestReferencedInList => .manifestReferencedInList
  | _, some _ => .unknown

def Answer.settles : Answer → Bool
  | .accepted | .blobUnknown | .nameUnknown | .manifestUnknown => true
  | _ => false

/-- The metadata, and whether a request has been answered with success or with 404. -/
structure Session where
  metadata : Metadata
  settled : Bool

def request (cfg : Config) (o : Object) (s : Session) (faults : Faults) : Option Session :=
  let r := delete cfg faults o s.metadata
  some ⟨r.1, s.settled || (answer o r.2).settles⟩

end ContainerRegistry.Model.Deletes
