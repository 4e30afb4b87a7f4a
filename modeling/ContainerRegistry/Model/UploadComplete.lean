import ContainerRegistry.Model.BlobWriter

/-!
# The end of an upload, with failing storage

`PutBlobUploadComplete` appends the rest of the content, commits and, where the commit fails,
cancels the upload. The storage calls of a commit may fail; those of the cancellation do not. In the
end the writer is closed once more.
-/

namespace ContainerRegistry.Model.Uploads

structure Faults where
  -- flushing the file in `Commit` fails after so many bytes
  flush : Option ℕ
  -- the hash state is not stored, or the file is not closed: `Commit` drops both errors
  hashState : Bool
  close : Bool
  -- a call of `validateBlob`, or one of `moveBlob` up to the move
  validate : Bool
  move : Bool
  deriving DecidableEq, Repr

inductive UploadError where
  | commit (e : CommitError)
  | storage
  deriving DecidableEq, Repr

/-- Close the writer; the file stays open where the hash state is not stored. blobwriter.go:156-166,
filesystem/driver.go:483-501 -/
def BlobWriter.tryClose (f : Faults) (bw : BlobWriter) (s : Backend) : Backend × BlobWriter :=
  if bw.committed then (s, bw)
  else if f.hashState && bw.resumableDigestEnabled then (s, bw)
  else if f.close then (bw.storeHashState s, bw)
  else bw.closeFile (bw.storeHashState s)

/-- blobwriter.go:69-97 -/
def BlobWriter.finish (hash : Algorithm → List Byte → ℕ) (f : Faults) (bw : BlobWriter)
    (s : Backend) (d : Digest) : Backend × BlobWriter × Except UploadError Descriptor :=
  let s₂ := (bw.tryClose f s).1
  let bw₂ := (bw.tryClose f s).2
  if f.validate then (s₂, (bw₂.resumeDigest s₂).1, .error .storage)
  else match bw₂.validateBlob hash s₂ d with
    | .error e => (s₂, (bw₂.resumeDigest s₂).1, .error (.commit e))
    | .ok desc =>
      if f.move then (s₂, (bw₂.resumeDigest s₂).1, .error .storage)
      else match s₂.moveBlob hash desc.digest with
        | .error e => (s₂, (bw₂.resumeDigest s₂).1, .error (.commit e))
        | .ok s₃ =>
          (s₃.removeResources, { (bw₂.resumeDigest s₂).1 with committed := true }, .ok desc)

/-- blobwriter.go:60-98, filesystem/driver.go:513-532 -/
def BlobWriter.tryCommit (hash : Algorithm → List Byte → ℕ) (f : Faults) (bw : BlobWriter)
    (s : Backend) (d : Digest) : Backend × BlobWriter × Except UploadError Descriptor :=
  match bw.fileWriter.unusable, f.flush with
  | some e, _ => (s, bw, .error (.commit (.writer e)))
  | none, some n =>
    ((bw.fileWriter.flush s n).1, { bw with fileWriter := (bw.fileWriter.flush s n).2 },
      .error .storage)
  | none, none =>
    let r := bw.fileWriter.flush s bw.fileWriter.buffer.length
    { bw with fileWriter := { r.2 with committed := true } }.finish hash f r.1 d

/-- Take the upload up, append the content of the request and commit. A failed commit is followed by
a cancellation. blobupload.go:235-318 -/
def putBlobUploadComplete (hash : Algorithm → List Byte → ℕ) (f : Faults) (s : Backend)
    (enabled : Bool) (chunks : List (List Byte)) (d : Digest) :
    Option (Backend × BlobWriter × Except UploadError Descriptor) :=
  match s.resume enabled with
  | none => none
  | some (s₁, bw) =>
    match (bw.readFrom s₁ chunks).tryCommit hash f s₁ d with
    | (s₂, bw₂, .error e) => some ((bw₂.cancel s₂).1, (bw₂.cancel s₂).2, .error e)
    | (s₂, bw₂, .ok desc) => some (s₂, bw₂, .ok desc)

/-- Nothing is left in the directory of the upload. -/
def Backend.Gone (s : Backend) : Prop :=
  s.data = none ∧ s.startedAt = false ∧ ∀ n, s.hashStates n = none

end ContainerRegistry.Model.Uploads
