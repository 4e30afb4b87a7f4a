import ContainerRegistry.Library.Appenders
import ContainerRegistry.Library.Stages
import Mathlib.Data.List.Sort

/-!
# The multipart writer of the S3 storage driver

`Writer`, `Write`, `Close` and `Commit` of `driver/s3-aws/s3.go` for one key of a bucket.

The service refuses to complete an upload without parts, or with a part of less than 5 MiB before
the last one, and lists at most 1000 parts. Any request may fail (`faults`). Other keys, `Cancel`,
and storage parameters are left out.
-/

namespace ContainerRegistry.Model.S3Uploads

open Library
open Library.Appender (Outcome)

variable {α : Type}

/-- s3.go:59-61 -/
def minChunkSize : ℕ := 5 * (1024 * 1024)

/-- s3.go:63-64 -/
def maxChunkSize : ℕ := 5 * (1024 * 1024 * 1024)

/-- The parts a call of `ListParts` returns at most. -/
def maxParts : ℕ := 1000

/-! ## The service -/

structure Part where
  etag : ℕ
  partNumber : ℕ
  size : ℕ
  deriving DecidableEq

structure StoredPart (α : Type) where
  etag : ℕ
  partNumber : ℕ
  body : List α
  deriving DecidableEq

def StoredPart.part (q : StoredPart α) : Part := ⟨q.etag, q.partNumber, q.body.length⟩

structure Upload (α : Type) where
  uploadID : ℕ
  parts : List (StoredPart α)
  deriving DecidableEq

/-- The object and the uploads of a key; ids and ETags are taken from `serial`. -/
structure Bucket (α : Type) where
  object : Option (List α)
  uploads : List (Upload α)
  serial : ℕ
  deriving DecidableEq

inductive Error where
  | fault
  | noSuchUpload
  | malformed
  | invalidPart
  | invalidPartOrder
  | entityTooSmall
  | noSuchKey
  | pathNotFound
  | text (message : String)
  deriving DecidableEq

namespace Bucket

def createMultipartUpload (b : Bucket α) : Bucket α × ℕ :=
  ({ b with uploads := b.uploads ++ [⟨b.serial, []⟩], serial := b.serial + 1 }, b.serial)

def insertPart (q : StoredPart α) (parts : List (StoredPart α)) : List (StoredPart α) :=
  parts.filter (fun x => x.partNumber < q.partNumber) ++
    q :: parts.filter (fun x => q.partNumber < x.partNumber)

def uploadPart (b : Bucket α) (uploadID partNumber : ℕ) (body : List α) :
    Except Error (Bucket α × ℕ) :=
  if b.uploads.any (fun u => u.uploadID = uploadID) then
    .ok ({ b with
      uploads := b.uploads.map fun u =>
        if u.uploadID = uploadID then
          { u with parts := insertPart ⟨b.serial, partNumber, body⟩ u.parts }
        else u
      serial := b.serial + 1 }, b.serial)
  else .error .noSuchUpload

def getObject (b : Bucket α) : Except Error (List α) :=
  match b.object with
  | none => .error .noSuchKey
  | some body => .ok body

def uploadPartCopy (b : Bucket α) (uploadID partNumber : ℕ) : Except Error (Bucket α × ℕ) :=
  b.getObject.bind fun body => b.uploadPart uploadID partNumber body

def abortMultipartUpload (b : Bucket α) (uploadID : ℕ) : Bucket α :=
  { b with uploads := b.uploads.filter fun u => u.uploadID ≠ uploadID }

def named (stored : List (StoredPart α)) (ps : List Part) : Option (List (StoredPart α)) :=
  ps.mapM fun p => stored.find? fun q => q.etag = p.etag ∧ q.partNumber = p.partNumber

def completeMultipartUpload (b : Bucket α) (uploadID : ℕ) (ps : List Part) :
    Except Error (Bucket α) :=
  match b.uploads.find? fun u => u.uploadID = uploadID with
  | none => .error .noSuchUpload
  | some u =>
    if ps = [] then .error .malformed
    else
      match named u.parts ps with
      | none => .error .invalidPart
      | some qs =>
        if ¬ (ps.map Part.partNumber).Pairwise (· < ·) then .error .invalidPartOrder
        else if ∃ q ∈ qs.dropLast, q.body.length < minChunkSize then .error .entityTooSmall
        else .ok { b.abortMultipartUpload uploadID with object := some (qs.flatMap (·.body)) }

def listParts (b : Bucket α) (uploadID : ℕ) : Except Error (List Part) :=
  match b.uploads.find? fun u => u.uploadID = uploadID with
  | none => .error .noSuchUpload
  | some u => .ok ((u.parts.take maxParts).map StoredPart.part)

end Bucket

/-! ## The writer -/

/-- s3.go:1549-1564 -/
structure Writer (α : Type) where
  uploadID : ℕ
  parts : List Part
  size : ℕ
  readyPart : List α
  pendingPart : List α
  closed : Bool
  committed : Bool
  deriving DecidableEq

/-- s3.go:1566-1578 -/
def newWriter (uploadID : ℕ) (parts : List Part) : Writer α :=
  ⟨uploadID, parts, parts.foldl (fun size part => size + part.size) 0, [], [], false, false⟩

/-- The bucket, the writer, and which of the next requests fail; requests beyond the list do
not. -/
structure World (α : Type) where
  bucket : Bucket α
  writer : Writer α
  faults : List Bool
  deriving DecidableEq

abbrev Action (α : Type) := Stage (World α) Error

def request (f : World α → Except Error (World α)) : Action α := fun w =>
  if w.faults.head? = some true then ({ w with faults := w.faults.tail }, some .fault)
  else
    match f { w with faults := w.faults.tail } with
    | .ok w' => (w', none)
    | .error e => ({ w with faults := w.faults.tail }, some e)

def update (f : Writer α → Writer α) : Action α := fun w => ({ w with writer := f w.writer }, none)

/-- If a step fails do something else about it, and return its error. -/
def cleanup (a c : Action α) : Action α := fun w =>
  match a w with
  | (w', none) => (w', none)
  | (w', some e) => ((c w').1, some e)

/-- Upload the first buffer as the next part, and put the second one in its place. s3.go:1817-1837
-/
def uploadReady : Action α := request fun w =>
  (w.bucket.uploadPart w.writer.uploadID (w.writer.parts.length + 1) w.writer.readyPart).map
    fun r => { w with
      bucket := r.1
      writer := { w.writer with
        parts := w.writer.parts ++ [⟨r.2, w.writer.parts.length + 1, w.writer.readyPart.length⟩]
        readyPart := w.writer.pendingPart
        pendingPart := [] } }

/-- s3.go:1803-1838 -/
def flushPart (chunkSize : ℕ) : Action α := fun w =>
  if w.writer.readyPart.length = 0 ∧ w.writer.pendingPart.length = 0 then (w, none)
  else if w.writer.pendingPart.length < chunkSize then
    uploadReady { w with writer := { w.writer with
      readyPart := w.writer.readyPart ++ w.writer.pendingPart, pendingPart := [] } }
  else uploadReady w

def complete : Action α := request fun w =>
  (w.bucket.completeMultipartUpload w.writer.uploadID
    (w.writer.parts.insertionSort fun p q => p.partNumber ≤ q.partNumber)).map
      fun b => { w with bucket := b }

def abort : Action α := request fun w =>
  .ok { w with bucket := w.bucket.abortMultipartUpload w.writer.uploadID }

/-- s3.go:1600-1629, 1770-1800 -/
def completeUpload : Action α := cleanup complete abort

/-- s3.go:1631-1644 -/
def createUpload : Action α := request fun w =>
  .ok { w with
    bucket := w.bucket.createMultipartUpload.1
    writer := { w.writer with uploadID := w.bucket.createMultipartUpload.2 } }

/-- s3.go:1646-1663 -/
def readObject : Action α := request fun w =>
  (w.bucket.getObject).map
    fun body => { w with writer := { w.writer with parts := [], readyPart := body } }

/-- s3.go:1664-1684 -/
def copyObject : Action α := request fun w =>
  (w.bucket.uploadPartCopy w.writer.uploadID 1).map
    fun r => { w with
      bucket := r.1, writer := { w.writer with parts := [⟨r.2, 1, w.writer.size⟩] } }

/-- s3.go:1597-1686 -/
def renewUpload : Action α :=
  completeUpload.andThen <| createUpload.andThen fun w =>
    if w.writer.size < minChunkSize then readObject w else copyObject w

/-- s3.go:1597-1599 -/
def smallTail (parts : List Part) : Bool := parts.getLast?.any fun p => p.size < minChunkSize

/-- The loop of `Write`. It returns what is left to be written when it ends, and does not end when
it cannot go on; each round that goes on takes something from `p`. s3.go:1688-1721 -/
def writeLoop (chunkSize : ℕ) : ℕ → List α → World α → (World α × List α) × Outcome Error
  | _, [], w => ((w, []), .ok)
  | 0, x :: xs, w => ((w, x :: xs), .crashed)
  | fuel + 1, x :: xs, w =>
    let p := x :: xs
    -- fill up the first buffer, then the second one
    let first := chunkSize - w.writer.readyPart.length
    let second := chunkSize - w.writer.pendingPart.length
    let rest := p.drop first
    let w' := { w with writer := { w.writer with
      readyPart := w.writer.readyPart ++ p.take first
      pendingPart := w.writer.pendingPart ++ rest.take second } }
    if 0 < second ∧ second ≤ rest.length then
      match flushPart chunkSize w' with
      | (w'', some e) => ((w'', rest.drop second), .failed e)
      | (w'', none) => writeLoop chunkSize fuel (rest.drop second) w''
    else writeLoop chunkSize fuel (rest.drop second) w'

/-- The answer of a call that fails before it accepts anything. -/
def refused (w : World α) (e : Error) : (World α × ℕ) × Outcome Error := ((w, 0), .failed e)

/-- s3.go:1586-1723 -/
def write (chunkSize : ℕ) (p : List α) (w : World α) : (World α × ℕ) × Outcome Error :=
  if w.writer.closed then refused w (.text "already closed")
  else if w.writer.committed then refused w (.text "already committed")
  else
    match Stage.when (smallTail w.writer.parts) renewUpload w with
    | (w, some e) => refused w e
    | (w, none) =>
      match writeLoop chunkSize p.length p w with
      | ((w, rest), o) =>
        (({ w with writer := { w.writer with size := w.writer.size + (p.length - rest.length) } },
          p.length - rest.length), o)

/-- s3.go:1729-1735 -/
def close (chunkSize : ℕ) : Action α :=
  (Stage.check fun w => if w.writer.closed then some (.text "already closed") else none).andThen <|
    (update fun w => { w with closed := true }).andThen (flushPart chunkSize)

/-- s3.go:1754-1801 -/
def commit (chunkSize : ℕ) : Action α :=
  (Stage.check fun w =>
    if w.writer.closed then some (.text "already closed")
    else if w.writer.committed then some (.text "already committed") else none).andThen <|
  (flushPart chunkSize).andThen <| (update fun w => { w with committed := true }).andThen <|
  completeUpload

/-! ## The driver -/

/-- s3.go:691-704 -/
def putContent (contents : List α) : Action α := request fun w =>
  .ok { w with bucket := { w.bucket with object := some contents } }

/-- s3.go:730-750 -/
def createWriter : Action α := request fun w =>
  .ok { w with
    bucket := w.bucket.createMultipartUpload.1
    writer := newWriter w.bucket.createMultipartUpload.2 [] }

/-- `Writer` with `append`: the first upload of the key. s3.go:752-784 -/
def reopenWriter : Action α :=
  (request fun w => .ok w).andThen fun w =>
    match w.bucket.uploads with
    | [] => (w, some .pathNotFound)
    | u :: _ => request (fun w => (w.bucket.listParts u.uploadID).map
        fun parts => { w with writer := newWriter u.uploadID parts }) w

def outcome : Option Error → Outcome Error
  | none => .ok
  | some e => .failed e

def call (a : Action α) (faults : List Bool) (w : World α) : World α × Outcome Error :=
  ((a { w with faults := faults }).1, outcome (a { w with faults := faults }).2)

def driver (chunkSize : ℕ) : Appender (World α) α Error (List Bool) where
  put := fun r p w => call (putContent p) r w
  create := fun r w => call createWriter r w
  reopen := fun r w => call reopenWriter r w
  write := fun r p w => write chunkSize p { w with faults := r }
  close := fun r w => call (close chunkSize) r w
  commit := fun r w => call (commit chunkSize) r w

/-- The key before the first call: no upload, and no writer. -/
def World.empty (object : Option (List α)) : World α :=
  ⟨⟨object, [], 0⟩, { newWriter 0 [] with closed := true }, []⟩

end ContainerRegistry.Model.S3Uploads
