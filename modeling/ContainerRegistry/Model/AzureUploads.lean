import Mathlib.Data.List.Basic

/-!
# The writer of the Azure driver

`PutContent`, `Writer` and the writer it returns, for one path. `AppendBlock` needs an append blob,
`Put Blob` does not replace one, and no request fails otherwise. The writer fills a `bufio.Writer`
of `C` bytes, `maxChunkSize` in the source. `Cancel` is left out.
-/

namespace ContainerRegistry.Model.AzureUploads

inductive BlobType where
  | block
  | append
  deriving DecidableEq, Repr

structure Blob (α : Type) where
  blobType : BlobType
  data : List α
  deriving DecidableEq, Repr

inductive Err where
  | service
  | pathNotFound
  | notSupported
  | alreadyClosed
  | alreadyCommitted
  | noWriter
  deriving DecidableEq, Repr

/-- azure.go:33 -/
def maxChunkSize : ℕ := 4 * 1024 * 1024

/-- azure.go:160 -/
def limit : ℕ := 256 * 1024 * 1024

variable {α : Type}

def appendBlock : Option (Blob α) → List α → Option (Blob α)
  | some ⟨.append, data⟩, p => some ⟨.append, data ++ p⟩
  | _, _ => none

def putBlob : Option (Blob α) → List α → Option (Blob α)
  | some ⟨.append, _⟩, _ => none
  | _, p => some ⟨.block, p⟩

/-! ## The writer -/

/-- With its `bufio.Writer`: the bytes not yet sent, and the first error. azure.go:483-491 -/
structure Writer (α : Type) where
  size : ℕ
  buf : List α
  err : Option Err
  closed : Bool
  committed : Bool

/-- azure.go:493-504 -/
def newWriter (size : ℕ) : Writer α := ⟨size, [], none, false, false⟩

variable (C : ℕ)

/-- The blob, the bytes sent and the error. azure.go:561-578 -/
def blockWrite : ℕ → Option (Blob α) → List α → Option (Blob α) × ℕ × Option Err
  | 0, blob, _ => (blob, 0, none)
  | fuel + 1, blob, p =>
    if p.isEmpty then (blob, 0, none)
    else match appendBlock blob (p.take C) with
      | none => (blob, 0, some .service)
      | some b =>
        let (blob', n, err) := blockWrite fuel (some b) (p.drop C)
        (blob', (p.take C).length + n, err)

def Writer.flush (w : Writer α) (blob : Option (Blob α)) : Option (Blob α) × Writer α :=
  if w.err.isSome || w.buf.isEmpty then (blob, w)
  else
    let (blob', n, err) := blockWrite C w.buf.length blob w.buf
    (blob', { w with buf := w.buf.drop n, err := err })

/-- What does not fit into an empty buffer is sent as it is. -/
def Writer.fill (w : Writer α) (blob : Option (Blob α)) (p : List α) :
    Option (Blob α) × Writer α × ℕ :=
  if w.err.isSome then (blob, w, 0)
  else if p.length ≤ C - w.buf.length then (blob, { w with buf := w.buf ++ p }, p.length)
  else
    let (blob', n, err) := blockWrite C p.length blob p
    (blob', { w with err := err }, n)

/-- `Write` of `bufio.Writer`, whose loop goes round at most twice. -/
def Writer.bufioWrite (w : Writer α) (blob : Option (Blob α)) (p : List α) :
    Option (Blob α) × Writer α × ℕ :=
  let available := C - w.buf.length
  if w.err.isSome || w.buf.isEmpty || decide (p.length ≤ available) then w.fill C blob p
  else
    let (blob', w') := Writer.flush C { w with buf := w.buf ++ p.take available } blob
    let (blob'', w'', n) := w'.fill C blob' (p.drop available)
    (blob'', w'', available + n)

/-! ## Calls -/

structure State (α : Type) where
  blob : Option (Blob α)
  writer : Option (Writer α)

inductive Op (α : Type) where
  | putContent (contents : List α)
  | writer (append : Bool)
  | write (p : List α)
  | close
  | commit

/-- azure.go:157-193 -/
def putContent (s : State α) (contents : List α) : State α × Option Err :=
  if limit < contents.length then (s, some .notSupported)
  else
    let blob := s.blob.filter (·.blobType = .block)
    match putBlob blob contents with
    | none => (⟨blob, s.writer⟩, some .service)
    | some b => (⟨some b, s.writer⟩, none)

/-- An existing blob is deleted and none is created in its place. azure.go:226-258 -/
def openWriter (s : State α) (append : Bool) : State α × Option Err :=
  match s.blob, append with
  | some b, true => (⟨s.blob, some (newWriter b.data.length)⟩, none)
  | some _, false => (⟨none, some (newWriter 0)⟩, none)
  | none, true => (s, some .pathNotFound)
  | none, false => (⟨some ⟨.append, []⟩, some (newWriter 0)⟩, none)

/-- azure.go:506-518 -/
def Writer.write (w : Writer α) (blob : Option (Blob α)) (p : List α) : State α × Option Err :=
  if w.closed then (⟨blob, w⟩, some .alreadyClosed)
  else if w.committed then (⟨blob, w⟩, some .alreadyCommitted)
  else
    let (blob', w', n) := w.bufioWrite C blob p
    (⟨blob', some { w' with size := w'.size + n }⟩, w'.err)

/-- azure.go:524-530 -/
def Writer.close (w : Writer α) (blob : Option (Blob α)) : State α × Option Err :=
  if w.closed then (⟨blob, w⟩, some .alreadyClosed)
  else
    let (blob', w') := Writer.flush C { w with closed := true } blob
    (⟨blob', w'⟩, w'.err)

/-- azure.go:543-553 -/
def Writer.commit (w : Writer α) (blob : Option (Blob α)) : State α × Option Err :=
  if w.closed then (⟨blob, w⟩, some .alreadyClosed)
  else if w.committed then (⟨blob, w⟩, some .alreadyCommitted)
  else
    let (blob', w') := Writer.flush C { w with committed := true } blob
    (⟨blob', w'⟩, w'.err)

def State.step (s : State α) (op : Op α) : State α × Option Err :=
  match op, s.writer with
  | .putContent contents, _ => putContent s contents
  | .writer append, _ => openWriter s append
  | _, none => (s, some .noWriter)
  | .write p, some w => w.write C s.blob p
  | .close, some w => w.close C s.blob
  | .commit, some w => w.commit C s.blob

end ContainerRegistry.Model.AzureUploads
