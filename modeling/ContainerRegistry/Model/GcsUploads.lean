import ContainerRegistry.Library.Appenders

/-!
# The resumable writer of the GCS storage driver

`Writer`, `Write`, `Close` and `Commit` of `driver/gcs/gcs.go` for one name of a bucket. The service
may acknowledge any prefix of a chunk; where it is empty the answer has no `Range` header. An error
in `Replies` is one that is left after the retries. `Cancel` is left out.
-/

namespace ContainerRegistry.Model.GcsUploads

open Library
open Library.Appender (Outcome)

variable {α : Type}

/-- gcs.go:56 -/
def minChunkSize : ℕ := 256 * 1024

inductive ContentType where
  | uploadSession
  | octetStream
  deriving DecidableEq

/-- An object; `sessionURI` and `offset` are the metadata of an upload session. -/
structure StoredObject (α : Type) where
  contentType : ContentType
  sessionURI : Option ℕ
  offset : ℕ
  body : List α
  deriving DecidableEq

/-- The answer to a chunk that is not the last one: a part of it is acknowledged, or an error. -/
inductive Ack where
  | part (k : ℕ)
  | fail
  deriving DecidableEq

structure Replies where
  start : Bool
  /-- The answers to chunks; chunks beyond these are acknowledged as a whole. -/
  acks : List Ack
  /-- The object can be read or written, and a session be completed. -/
  store : Bool
  deriving DecidableEq

inductive Error where
  | fault
  | noSuchSession
  | badRange
  | notFound
  | pathNotFound
  | text (message : String)
  deriving DecidableEq

/-- The buffer is `w.buffer[0:w.buffSize]`, and an empty session URI is none. gcs.go:412-423 -/
structure Writer (α : Type) where
  size : ℕ
  offset : ℕ
  closed : Bool
  sessionURI : Option ℕ
  buffer : List α
  deriving DecidableEq

/-- The object of the name, the upload sessions with the bytes they have, the newest entry of a
session first, and the writer. -/
structure World (α : Type) where
  object : Option (StoredObject α)
  sessions : List (ℕ × List α)
  serial : ℕ
  writer : Writer α
  replies : Replies
  deriving DecidableEq

def World.session (w : World α) (uri : ℕ) : Option (List α) :=
  (w.sessions.find? fun x => x.1 = uri).map Prod.snd

/-- Unless it has one. gcs.go:556-562, 1037-1064 -/
def startSession (w : World α) : World α × Option ℕ :=
  match w.writer.sessionURI with
  | some uri => (w, some uri)
  | none =>
    if w.replies.start then
      ({ w with
        sessions := (w.serial, []) :: w.sessions
        serial := w.serial + 1
        writer := { w.writer with sessionURI := some w.serial } }, some w.serial)
    else (w, none)

/-- With the number of bytes put. gcs.go:1066-1109 -/
def putChunk (uri : ℕ) (chunk : List α) (offset : ℕ) (w : World α) :
    (World α × ℕ) × Outcome Error :=
  match w.session uri with
  | none => ((w, 0), .failed .noSuchSession)
  | some bytes =>
    if bytes.length ≠ offset then ((w, 0), .failed .badRange)
    else
      match w.replies.acks with
      | .fail :: rest =>
        (({ w with replies := { w.replies with acks := rest } }, 0), .failed .fault)
      | .part k :: rest =>
        let w := { w with
          sessions := (uri, bytes ++ chunk.take k) :: w.sessions
          replies := { w.replies with acks := rest } }
        -- without a `Range` header the submatches are nil, and `groups[2]` panics
        if (chunk.take k).length = 0 then ((w, 0), .crashed)
        else ((w, (chunk.take k).length), .ok)
      | [] => (({ w with sessions := (uri, bytes ++ chunk) :: w.sessions }, chunk.length), .ok)

/-- The last chunk, with which the session becomes the object. gcs.go:1066-1109 -/
def putLastChunk (uri : ℕ) (chunk : List α) (offset : ℕ) (w : World α) : World α × Outcome Error :=
  match w.session uri with
  | none => (w, .failed .noSuchSession)
  | some bytes =>
    if bytes.length ≠ offset then (w, .failed .badRange)
    else if w.replies.store then
      ({ w with object := some ⟨.octetStream, none, 0, bytes ++ chunk⟩ }, .ok)
    else (w, .failed .fault)

/-- gcs.go:548-572 -/
def writeChunk (w : World α) : World α × Outcome Error :=
  let chunkSize := w.writer.buffer.length - w.writer.buffer.length % minChunkSize
  if chunkSize = 0 then (w, .ok)
  else
    match startSession w with
    | (w, none) => (w, .failed .fault)
    | (w, some uri) =>
      match putChunk uri (w.writer.buffer.take chunkSize) w.writer.offset w with
      | ((w, _), .crashed) => (w, .crashed)
      | ((w, n), o) =>
        ({ w with writer := { w.writer with
          offset := w.writer.offset + n
          size := max w.writer.size (w.writer.offset + n)
          -- shift the remaining bytes to the start of the buffer
          buffer := w.writer.buffer.drop n } }, o)

/-- What is left to be written when it ends. A round whose chunk fails does not count what it has
put into the buffer. gcs.go:580-592 -/
def writeLoop (capacity : ℕ) : ℕ → List α → World α → (World α × List α) × Outcome Error
  | _, [], w => ((w, []), .ok)
  | 0, x :: xs, w => ((w, x :: xs), .crashed)
  | fuel + 1, x :: xs, w =>
    let n := capacity - w.writer.buffer.length
    let w := { w with writer := { w.writer with
      buffer := w.writer.buffer ++ (x :: xs).take n } }
    if w.writer.buffer.length = capacity then
      match writeChunk w with
      | (w, .ok) => writeLoop capacity fuel ((x :: xs).drop n) w
      | (w, o) => ((w, x :: xs), o)
    else writeLoop capacity fuel ((x :: xs).drop n) w

/-- gcs.go:574-593 -/
def write (capacity : ℕ) (p : List α) (w : World α) : (World α × ℕ) × Outcome Error :=
  if w.writer.closed then ((w, 0), .failed (.text "Writer already closed"))
  else
    match writeLoop capacity (p.length + 1) p w with
    | ((w, rest), o) => ((w, p.length - rest.length), o)

/-- At most `minChunkSize` bytes. gcs.go:450-474 -/
def storeSession (w : World α) : World α × Outcome Error :=
  let buffer := w.writer.buffer.take minChunkSize
  if w.replies.store then
    ({ w with
      object := some ⟨.uploadSession, w.writer.sessionURI, w.writer.offset, buffer⟩
      writer := { w.writer with size := w.writer.offset + buffer.length, buffer := [] } }, .ok)
  else ({ w with writer := { w.writer with buffer := buffer } }, .failed .fault)

/-- gcs.go:439-475 -/
def close (w : World α) : World α × Outcome Error :=
  if w.writer.closed then (w, .ok)
  else
    match writeChunk { w with writer := { w.writer with closed := true } } with
    | (w, .ok) => storeSession w
    | (w, o) => (w, o)

/-- gcs.go:498-539 -/
def commit (w : World α) : World α × Outcome Error :=
  if w.writer.closed then (w, .failed (.text "Writer already closed"))
  else
    let w := { w with writer := { w.writer with closed := true } }
    match w.writer.sessionURI with
    | none =>
      if w.replies.store then
        ({ w with
          object := some ⟨.octetStream, none, 0, w.writer.buffer⟩
          writer := { w.writer with
            size := w.writer.offset + w.writer.buffer.length, buffer := [] } }, .ok)
      else (w, .failed .fault)
    | some uri =>
      match putLastChunk uri w.writer.buffer w.writer.offset w with
      | (w, .ok) => ({ w with writer := { w.writer with
          offset := w.writer.offset + w.writer.buffer.length
          size := w.writer.offset + w.writer.buffer.length
          buffer := [] } }, .ok)
      | (w, o) => (w, o)

/-- gcs.go:312-330 -/
def putContent (contents : List α) (w : World α) : World α × Outcome Error :=
  if w.replies.store then ({ w with object := some ⟨.octetStream, none, 0, contents⟩ }, .ok)
  else (w, .failed .fault)

/-- gcs.go:394-410 -/
def createWriter (w : World α) : World α × Outcome Error :=
  ({ w with writer := ⟨0, 0, false, none, []⟩ }, .ok)

/-- gcs.go:394-410, 600-622 -/
def reopenWriter (capacity : ℕ) (w : World α) : World α × Outcome Error :=
  if w.replies.store then
    match w.object with
    | none => (w, .failed .notFound)
    | some o =>
      if o.contentType = .uploadSession then
        ({ w with writer :=
          ⟨o.offset + (o.body.take capacity).length, o.offset, false, o.sessionURI,
            o.body.take capacity⟩ }, .ok)
      else (w, .failed .pathNotFound)
  else (w, .failed .fault)

def driver (chunkSize : ℕ) : Appender (World α) α Error Replies where
  put := fun r p w => putContent p { w with replies := r }
  create := fun r w => createWriter { w with replies := r }
  reopen := fun r w => reopenWriter chunkSize { w with replies := r }
  write := fun r p w => write chunkSize p { w with replies := r }
  close := fun r w => close { w with replies := r }
  commit := fun r w => commit { w with replies := r }

def World.empty (object : Option (StoredObject α)) : World α :=
  ⟨object, [], 0, ⟨0, 0, true, none, []⟩, ⟨true, [], true⟩⟩

end ContainerRegistry.Model.GcsUploads
