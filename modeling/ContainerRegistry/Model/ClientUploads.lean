import Mathlib.Tactic.Common

/-!
# The upload writer of the client, against the server

`httpBlobUpload` of `registry/client/blob_writer.go`, whose requests are served by `PatchBlobData`
of `registry/handlers/blobupload.go`. A location has the identifier and the signed state of the
upload, which the server made itself; the numbers of a range stand for its text.

A request may be lost or cut off after some of its body, and its answer may be lost.
-/

namespace ContainerRegistry.Model.ClientUploads

variable {β : Type}

/-! ## The server -/

/-- hmac.go:12-25 -/
structure UploadState where
  name : ℕ
  uuid : ℕ
  offset : ℕ
  deriving DecidableEq, Repr

structure Location where
  uuid : ℕ
  state : UploadState
  deriving DecidableEq, Repr

structure Server (β : Type) where
  name : ℕ
  uploads : ℕ → Option (List β)

def Server.set (s : Server β) (uuid : ℕ) (content : Option (List β)) : Server β :=
  { s with uploads := fun id => if id = uuid then content else s.uploads id }

/-- One that is not where the token says is cancelled. blobupload.go:337-386 -/
def resumeBlobUpload (s : Server β) (loc : Location) : Server β × Option (List β) :=
  if loc.state.name ≠ s.name then (s, none)
  else if loc.state.uuid ≠ loc.uuid then (s, none)
  else
    match s.uploads loc.uuid with
    | none => (s, none)
    | some content =>
      if content.length ≠ loc.state.offset then (s.set loc.uuid none, none) else (s, some content)

structure Response where
  uuid : ℕ
  location : Location
  range : Int × Int
  deriving DecidableEq, Repr

/-- blobupload.go:393-429 -/
def blobUploadResponse (s : Server β) (uuid : ℕ) (content : List β) : Response where
  uuid := uuid
  location := ⟨uuid, ⟨s.name, uuid, content.length⟩⟩
  range := (0, if 0 < content.length then (content.length : Int) - 1 else 0)

inductive Fate where
  | lost
  /-- The server gets so many bytes of the body only. -/
  | cut (received : ℕ)
  | unanswered
  | answered
  deriving DecidableEq, Repr

/-- The answer is none if it is an error or does not arrive. The range of the request is not looked
at: the body is appended. blobupload.go:163-191 -/
def patchBlobData (s : Server β) (loc : Location) (body : List β) :
    Fate → Server β × Option Response
  | .lost => (s, none)
  | .cut received =>
    match resumeBlobUpload s loc with
    | (s', none) => (s', none)
    | (s', some content) => (s'.set loc.uuid (some (content ++ body.take received)), none)
  | .unanswered =>
    match resumeBlobUpload s loc with
    | (s', none) => (s', none)
    | (s', some content) => (s'.set loc.uuid (some (content ++ body)), none)
  | .answered =>
    match resumeBlobUpload s loc with
    | (s', none) => (s', none)
    | (s', some content) =>
      (s'.set loc.uuid (some (content ++ body)),
        some (blobUploadResponse s' loc.uuid (content ++ body)))

/-! ## The client -/

/-- blob_writer.go:15-25 -/
structure HttpBlobUpload where
  uuid : ℕ
  location : Location
  offset : Int
  deriving DecidableEq, Repr

/-- blob_writer.go:104-106 -/
def HttpBlobUpload.size (hbu : HttpBlobUpload) : Int := hbu.offset

/-- blob_writer.go:75 -/
def HttpBlobUpload.contentRange (hbu : HttpBlobUpload) (p : List β) : Int × Int :=
  (hbu.offset, hbu.offset + ((p.length : Int) - 1))

/-- The end of `Write`; the result is none for an error. blob_writer.go:79-101 -/
def HttpBlobUpload.handle (hbu : HttpBlobUpload) : Option Response → HttpBlobUpload × Option Int
  | none => (hbu, none)
  | some resp =>
    let hbu := { hbu with uuid := resp.uuid, location := resp.location }
    (hbu, if resp.range.2 < resp.range.1 then none else some (resp.range.2 - resp.range.1 + 1))

/-! ## Both -/

structure System (β : Type) where
  client : HttpBlobUpload
  server : Server β

/-- What was written, the range of the request, the result, and the size after it. -/
structure Entry (β : Type) where
  body : List β
  contentRange : Int × Int
  result : Option Int
  size : Int
  deriving DecidableEq, Repr

/-- blob_writer.go:70-102 -/
def write (w : System β) (p : List β) (fate : Fate) : System β × Entry β :=
  let (server, resp) := patchBlobData w.server w.client.location p fate
  let (client, result) := w.client.handle resp
  (⟨client, server⟩, ⟨p, w.client.contentRange p, result, client.size⟩)

def writes (w : System β) : List (List β × Fate) → List (Entry β)
  | [] => []
  | (p, fate) :: calls => (write w p fate).2 :: writes (write w p fate).1 calls

/-- client/repository.go:782-788, blobupload.go:97-141 -/
def created (name uuid : ℕ) : System β where
  client := ⟨uuid, ⟨uuid, ⟨name, uuid, 0⟩⟩, 0⟩
  server := ⟨name, fun id => if id = uuid then some [] else none⟩

end ContainerRegistry.Model.ClientUploads
