import ContainerRegistry.Model.Schema

/-!
# Blob uploads

`blobwriter.go` and `blobwriter_resumable.go` over the file writer of the filesystem driver. Files
are numbered as inodes, for a writer keeps its file when the path is renamed. A driver that makes a
file only with its first byte is covered (`Backend.lazy`).

A hash state is the bytes that have been hashed; hash functions are given by `hash`. Left out: the
empty digest, media types, the link and the descriptor cache, which come after the move, and errors
of the storage.
-/

namespace ContainerRegistry.Model.Uploads

open Function

abbrev Byte := UInt8

variable (hash : Algorithm → List Byte → ℕ)

def digestOf (a : Algorithm) (bytes : List Byte) : Digest := ⟨a, hash a bytes⟩

structure Backend where
  files : ℕ → List Byte
  next : ℕ
  -- the upload directory: its data file, its start time and the saved hash states by offset
  data : Option ℕ
  startedAt : Bool
  hashStates : ℕ → Option (List Byte)
  blobs : Digest → Option ℕ
  -- the driver makes a file only with its first byte
  lazy : Bool

/-- The content of the upload; a missing file reads as empty. filereader.go:110-130 -/
def Backend.content (s : Backend) : List Byte :=
  match s.data with
  | none => []
  | some i => s.files i

def writeAt (f : List Byte) (pos : ℕ) (b : List Byte) : List Byte :=
  f.take pos ++ List.replicate (pos - f.length) 0 ++ b ++ f.drop (pos + b.length)

/-! ## The file writer -/

/-- filesystem/driver.go:447-464 -/
structure FileWriter where
  inode : ℕ
  unlinked : Bool
  size : ℕ
  buffer : List Byte
  closed : Bool
  committed : Bool
  canceled : Bool
  deriving DecidableEq, Repr

inductive WriterError where
  | alreadyClosed
  | alreadyCommitted
  | alreadyCanceled
  | closeAfterCommit
  deriving DecidableEq, Repr

def FileWriter.unusable (fw : FileWriter) : Option WriterError :=
  if fw.closed then some .alreadyClosed
  else if fw.committed then some .alreadyCommitted
  else if fw.canceled then some .alreadyCanceled
  else none

def FileWriter.flush (fw : FileWriter) (s : Backend) (n : ℕ) : Backend × FileWriter :=
  ({ s with
      files := update s.files fw.inode
        (writeAt (s.files fw.inode) (fw.size - fw.buffer.length) (fw.buffer.take n))
      data := if fw.unlinked && !(fw.buffer.take n).isEmpty then some fw.inode else s.data },
    { fw with
      buffer := fw.buffer.drop n
      unlinked := fw.unlinked && (fw.buffer.take n).isEmpty })

/-- filesystem/driver.go:466-477 -/
def FileWriter.write (fw : FileWriter) (p : List Byte) : Except WriterError FileWriter :=
  match fw.unusable with
  | some e => .error e
  | none => .ok { fw with buffer := fw.buffer ++ p, size := fw.size + p.length }

/-- A canceled writer has lost its file and is not closed. filesystem/driver.go:483-501 -/
def FileWriter.close (fw : FileWriter) (s : Backend) : Backend × Except WriterError FileWriter :=
  if fw.closed then (s, .error .alreadyClosed)
  else if fw.canceled then (s, .error .alreadyCanceled)
  else
    ((fw.flush s fw.buffer.length).1, .ok { (fw.flush s fw.buffer.length).2 with closed := true })

/-- filesystem/driver.go:513-532 -/
def FileWriter.commit (fw : FileWriter) (s : Backend) : Backend × Except WriterError FileWriter :=
  match fw.unusable with
  | some e => (s, .error e)
  | none =>
    ((fw.flush s fw.buffer.length).1,
      .ok { (fw.flush s fw.buffer.length).2 with committed := true })

/-- At its end, or as a new file. filesystem/driver.go:176-206 -/
def openFile (s : Backend) : Backend × FileWriter :=
  match s.data with
  | some i => (s, ⟨i, false, (s.files i).length, [], false, false, false⟩)
  | none =>
    ({ s with
        files := update s.files s.next []
        next := s.next + 1
        data := if s.lazy then none else some s.next },
      ⟨s.next, s.lazy, 0, [], false, false, false⟩)

/-! ## The blob writer -/

/-- blobwriter.go:29-46 -/
structure BlobWriter where
  fileWriter : FileWriter
  digester : List Byte
  written : ℕ
  resumableDigestEnabled : Bool
  committed : Bool
  deriving DecidableEq, Repr

/-- linkedblobstore.go:326-347 -/
def newBlobUpload (s : Backend) (enabled : Bool) : Backend × BlobWriter :=
  ((openFile s).1, ⟨(openFile s).2, [], 0, enabled, false⟩)

/-- linkedblobstore.go:131-173 -/
def Backend.create (s : Backend) (enabled : Bool) : Backend × BlobWriter :=
  newBlobUpload { s with data := none, startedAt := true, hashStates := fun _ => none } enabled

/-- Take up an upload, unless it is unknown. linkedblobstore.go:175-222 -/
def Backend.resume (s : Backend) (enabled : Bool) : Option (Backend × BlobWriter) :=
  if s.startedAt then some (newBlobUpload s enabled) else none

variable (bw : BlobWriter)

/-- `false` where the digest is not available. Without a state saved for exactly this size the hash
is reset, while the count of hashed bytes stays as it is. blobwriter_resumable.go:18-72 -/
def BlobWriter.resumeDigest (s : Backend) : BlobWriter × Bool :=
  if !bw.resumableDigestEnabled then (bw, false)
  else if bw.fileWriter.size = bw.written then (bw, true)
  else match if bw.fileWriter.size = 0 then none else s.hashStates bw.fileWriter.size with
    | some state => ({ bw with digester := state, written := bw.fileWriter.size }, true)
    | none => ({ bw with digester := [] }, decide (bw.fileWriter.size ≤ bw.written))

def BlobWriter.writeChunk (p : List Byte) : Except WriterError BlobWriter :=
  match bw.fileWriter.write p with
  | .error e => .error e
  | .ok fw => .ok { bw with
      fileWriter := fw
      digester := bw.digester ++ p
      written := bw.written + p.length }

def BlobWriter.writeChunks (bw : BlobWriter) : List (List Byte) → BlobWriter
  | [] => bw
  | p :: ps =>
    match bw.writeChunk p with
    | .error _ => bw
    | .ok bw' => bw'.writeChunks ps

/-- blobwriter.go:118-135 -/
def BlobWriter.write (s : Backend) (p : List Byte) : BlobWriter :=
  (bw.resumeDigest s).1.writeChunks [p]

/-- blobwriter.go:137-154 -/
def BlobWriter.readFrom (s : Backend) (chunks : List (List Byte)) : BlobWriter :=
  (bw.resumeDigest s).1.writeChunks chunks

/-- blobwriter_resumable.go:116-144 -/
def BlobWriter.storeHashState (s : Backend) : Backend :=
  if bw.resumableDigestEnabled then
    { s with hashStates := update s.hashStates bw.written (some bw.digester) }
  else s

def BlobWriter.closeFile (s : Backend) : Backend × BlobWriter :=
  match bw.fileWriter.close s with
  | (s', .error _) => (s', bw)
  | (s', .ok fw) => (s', { bw with fileWriter := fw })

/-- blobwriter.go:156-166 -/
def BlobWriter.close (s : Backend) : Backend × BlobWriter :=
  if bw.committed then (s, bw) else bw.closeFile (bw.storeHashState s)

inductive CommitError where
  | writer (e : WriterError)
  | blobInvalidLength
  | blobInvalidDigest
  | pathNotFound
  deriving DecidableEq, Repr

structure Descriptor where
  digest : Digest
  size : ℕ
  deriving DecidableEq, Repr

/-- From the hash where it is available, or else by reading the file. blobwriter.go:168-286 -/
def BlobWriter.canonical (s : Backend) (d : Digest) : Option Digest :=
  if (bw.resumeDigest s).2 && decide (d.algorithm = .sha256) then
    if d = digestOf hash .sha256 (bw.resumeDigest s).1.digester then some d else none
  else if decide ((bw.resumeDigest s).1.written = s.content.length) &&
      decide (d.algorithm = .sha256) &&
      decide (d = digestOf hash .sha256 (bw.resumeDigest s).1.digester) then some d
  else if d = digestOf hash d.algorithm s.content then some (digestOf hash .sha256 s.content)
  else none

/-- The size of the writer counts unless the file is missing. blobwriter.go:168-286 -/
def BlobWriter.validateBlob (s : Backend) (d : Digest) : Except CommitError Descriptor :=
  if s.data.isSome && decide (0 < bw.fileWriter.size) &&
      decide (bw.fileWriter.size ≠ s.content.length) then .error .blobInvalidLength
  else match bw.canonical hash s d with
    | none => .error .blobInvalidDigest
    | some c => .ok ⟨c, s.content.length⟩

/-- Unless there is one already. A missing file stands for empty content. blobwriter.go:288-353 -/
def Backend.moveBlob (s : Backend) (d : Digest) : Except CommitError Backend :=
  if (s.blobs d).isSome then .ok s
  else match s.data with
    | some i => .ok { s with blobs := update s.blobs d (some i), data := none }
    | none =>
      if d = digestOf hash .sha256 [] then
        .ok { s with
          files := update s.files s.next []
          next := s.next + 1
          blobs := update s.blobs d (some s.next) }
      else .error .pathNotFound

/-- blobwriter.go:355-386 -/
def Backend.removeResources (s : Backend) : Backend :=
  { s with data := none, startedAt := false, hashStates := fun _ => none }

/-- blobwriter.go:60-98 -/
def BlobWriter.commit (bw : BlobWriter) (s : Backend) (d : Digest) :
    Backend × BlobWriter × Except CommitError Descriptor :=
  match bw.fileWriter.commit s with
  | (s₁, .error e) => (s₁, bw, .error (.writer e))
  | (s₁, .ok fw) =>
    let bw₁ := { bw with fileWriter := fw }
    let s₂ := (bw₁.close s₁).1
    let bw₂ := (bw₁.close s₁).2
    match bw₂.validateBlob hash s₂ d with
    | .error e => (s₂, (bw₂.resumeDigest s₂).1, .error e)
    | .ok desc =>
      match s₂.moveBlob hash desc.digest with
      | .error e => (s₂, (bw₂.resumeDigest s₂).1, .error e)
      | .ok s₃ =>
        (s₃.removeResources, { (bw₂.resumeDigest s₂).1 with committed := true }, .ok desc)

/-- Only a file that is not closed yet is canceled, and only one that is still in its place is
followed by the rest of the upload. blobwriter.go:100-112, filesystem/driver.go:503-511 -/
def BlobWriter.cancel (s : Backend) : Backend × BlobWriter :=
  if bw.fileWriter.closed then (s, bw)
  else
    (if s.data.isNone && !bw.fileWriter.unlinked then s else s.removeResources,
      { bw with fileWriter := { bw.fileWriter with canceled := true } })

/-! ## One instance after the other -/

structure Upload where
  store : Backend
  writer : BlobWriter

inductive Call where
  | write (p : List Byte)
  | readFrom (chunks : List (List Byte))
  | close
  | resume (enabled : Bool)
  | commit (d : Digest)
  deriving DecidableEq, Repr

def Upload.create (s : Backend) (enabled : Bool) : Upload :=
  ⟨(s.create enabled).1, (s.create enabled).2⟩

/-- The next instance is not started before the file of the last one is closed. -/
def exec (u : Upload) : Call → Option Upload
  | .write p => some { u with writer := u.writer.write u.store p }
  | .readFrom chunks => some { u with writer := u.writer.readFrom u.store chunks }
  | .close => some ⟨(u.writer.close u.store).1, (u.writer.close u.store).2⟩
  | .resume enabled =>
    if u.writer.fileWriter.closed then
      match u.store.resume enabled with
      | some (s, bw) => some ⟨s, bw⟩
      | none => some u
    else none
  | .commit d =>
    some ⟨(u.writer.commit hash u.store d).1, (u.writer.commit hash u.store d).2.1⟩

def Call.received (u : Upload) : Call → List Byte
  | .write p => if u.writer.fileWriter.unusable.isNone then p else []
  | .readFrom chunks => if u.writer.fileWriter.unusable.isNone then chunks.flatten else []
  | .close => []
  | .resume _ => []
  | .commit _ => []

def received (hash : Algorithm → List Byte → ℕ) (u : Upload) : List Call → List Byte
  | [] => []
  | c :: cs => c.received u ++ ((exec hash u c).map fun u' => received hash u' cs).getD []

/-! ## Instances side by side -/

inductive Stage where
  | ready
  | closing
  | flushed (d : Digest)
  | stored (d : Digest)
  | validating (d : Digest)
  | moving (d : Digest)
  | moved
  | ended
  deriving DecidableEq, Repr

structure Session where
  writer : BlobWriter
  stage : Stage
  deriving DecidableEq, Repr

structure System where
  store : Backend
  sessions : List Session

inductive Action where
  | resume (enabled : Bool)
  | write (k : ℕ) (p : List Byte)
  | readFrom (k : ℕ) (chunks : List (List Byte))
  | flush (k : ℕ) (n : ℕ)
  | close (k : ℕ)
  | commit (k : ℕ) (d : Digest)
  | cancel (k : ℕ)
  | advance (k : ℕ)
  | stop (k : ℕ)
  deriving DecidableEq, Repr

/-- An error ends the call. -/
def advance (s : Backend) (x : Session) : Option (Backend × Session) :=
  match x.stage with
  | .ready => none
  | .closing => some ((x.writer.closeFile s).1, ⟨(x.writer.closeFile s).2, .ready⟩)
  | .flushed d => some (x.writer.storeHashState s, ⟨x.writer, .stored d⟩)
  | .stored d => some ((x.writer.closeFile s).1, ⟨(x.writer.closeFile s).2, .validating d⟩)
  | .validating d =>
    match x.writer.validateBlob hash s d with
    | .error _ => some (s, ⟨(x.writer.resumeDigest s).1, .ready⟩)
    | .ok desc => some (s, ⟨(x.writer.resumeDigest s).1, .moving desc.digest⟩)
  | .moving c =>
    match s.moveBlob hash c with
    | .error _ => some (s, ⟨x.writer, .ready⟩)
    | .ok s' => some (s', ⟨x.writer, .moved⟩)
  | .moved => some (s.removeResources, ⟨{ x.writer with committed := true }, .ready⟩)
  | .ended => none

/-- Up to where the call first touches the storage. The buffer of an open file may be written at any
time. -/
def startCall (s : Backend) (x : Session) : Action → Option (Backend × Session)
  | .write _ p => some (s, ⟨x.writer.write s p, .ready⟩)
  | .readFrom _ chunks => some (s, ⟨x.writer.readFrom s chunks, .ready⟩)
  | .flush _ n =>
    if x.writer.fileWriter.unusable.isNone then
      some ((x.writer.fileWriter.flush s n).1,
        ⟨{ x.writer with fileWriter := (x.writer.fileWriter.flush s n).2 }, .ready⟩)
    else none
  | .close _ =>
    if x.writer.committed then some (s, x)
    else some (x.writer.storeHashState s, ⟨x.writer, .closing⟩)
  | .commit _ d =>
    match x.writer.fileWriter.commit s with
    | (s', .error _) => some (s', x)
    | (s', .ok fw) => some (s', ⟨{ x.writer with fileWriter := fw }, .flushed d⟩)
  | .cancel _ => some ((x.writer.cancel s).1, ⟨(x.writer.cancel s).2, .ready⟩)
  | .stop _ => some (s, ⟨x.writer, .ended⟩)
  | _ => none

def Action.session : Action → Option ℕ
  | .resume _ => none
  | .write k _ => some k
  | .readFrom k _ => some k
  | .flush k _ => some k
  | .close k => some k
  | .commit k _ => some k
  | .cancel k => some k
  | .advance k => some k
  | .stop k => some k

def Session.step (s : Backend) (x : Session) (a : Action) : Option (Backend × Session) :=
  if x.stage = .ready then startCall s x a
  else match a with
    | .advance _ => advance hash s x
    | _ => none

def step (u : System) (a : Action) : Option System :=
  match a.session with
  | none =>
    match a with
    | .resume enabled =>
      (u.store.resume enabled).map fun r => ⟨r.1, u.sessions ++ [⟨r.2, .ready⟩]⟩
    | _ => none
  | some k =>
    (u.sessions[k]?).bind fun x =>
      (x.step hash u.store a).map fun r => ⟨r.1, u.sessions.set k r.2⟩

def System.create (s : Backend) (enabled : Bool) : System :=
  ⟨(s.create enabled).1, [⟨(s.create enabled).2, .ready⟩]⟩

end ContainerRegistry.Model.Uploads
