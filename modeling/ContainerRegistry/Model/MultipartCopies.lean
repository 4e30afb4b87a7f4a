import Mathlib.Data.List.Basic

/-!
# Multipart copies in the S3 driver

`copy` of `driver/s3-aws/s3.go` for an object above the threshold. A goroutine copies each part: its
request, which may be answered with any ETag or error, its place in the list of parts and its
message are one step. The limiter only delays a goroutine, and every delay is some order of steps.
-/

namespace ContainerRegistry.Model.MultipartCopies

/-- s3.go:61-64 -/
def minChunkSize : Int64 := 5 * 1024 * 1024

def maxChunkSize : Int64 := 5 * 1024 * 1024 * 1024

/-- The parameters, within the bounds that `FromParameters` puts on them. s3.go:367-383 -/
structure Driver where
  multipartCopyChunkSize : Int64
  multipartCopyThresholdSize : Int64
  chunkSize_bounds : minChunkSize ≤ multipartCopyChunkSize ∧ multipartCopyChunkSize ≤ maxChunkSize
  threshold_bounds : 0 ≤ multipartCopyThresholdSize ∧ multipartCopyThresholdSize ≤ maxChunkSize

variable (d : Driver) (size : Int64)

/-- s3.go:947 -/
def numParts : Int64 := (size + d.multipartCopyChunkSize - 1) / d.multipartCopyChunkSize

/-- The first and the last byte of a part. s3.go:960-964 -/
def byteRange (i : ℕ) : Int64 × Int64 :=
  let firstByte := Int64.ofNat i * d.multipartCopyChunkSize
  let lastByte := firstByte + d.multipartCopyChunkSize - 1
  (firstByte, if size ≤ lastByte then size - 1 else lastByte)

/-- `UploadPartCopyInput`. -/
structure Request where
  partNumber : ℕ
  copySourceRange : Int64 × Int64
  deriving DecidableEq

def request (i : ℕ) : Request := ⟨i + 1, byteRange d size i⟩

structure CompletedPart (τ : Type) where
  eTag : τ
  partNumber : ℕ
  deriving DecidableEq

variable {τ ε : Type}

/-- A message is recorded with its part, which the receiver does not look at. -/
structure State (τ ε : Type) where
  /-- The parts whose goroutines are at work. -/
  copying : List ℕ
  completedParts : ℕ → Option (CompletedPart τ)
  errChan : List (ℕ × Option ε)
  received : List (ℕ × Option ε)
  requests : List Request
  /-- The error that is returned, or the parts the upload is completed with. -/
  result : Option (Except ε (List (Option (CompletedPart τ))))

def start (n : ℕ) : State τ ε := ⟨List.range n, fun _ => none, [], [], [], none⟩

/-- `make` panics with a negative length. s3.go:948 -/
def copy : Option (ℕ × State τ ε) :=
  if 0 ≤ numParts d size then
    some ((numParts d size).toInt.toNat, start (numParts d size).toInt.toNat)
  else none

/-- A goroutine is told by its place in the list. -/
inductive Action (τ ε : Type) where
  | copyPart (k : ℕ) (answer : Except ε τ)
  | receive
  | complete

/-- One step of a goroutine, or of the loop that receives, with `n` parts. s3.go:955-1003 -/
def step (n : ℕ) (s : State τ ε) : Action τ ε → Option (State τ ε)
  | .copyPart k answer =>
    s.copying[k]?.map fun i =>
      let s := { s with
        copying := s.copying.eraseIdx k, requests := request d size i :: s.requests }
      match answer with
      | .error e => { s with errChan := s.errChan ++ [(i, some e)] }
      | .ok eTag => { s with
          completedParts := Function.update s.completedParts i (some ⟨eTag, i + 1⟩)
          errChan := s.errChan ++ [(i, none)] }
  | .receive =>
    match s.result, s.errChan with
    | none, (i, err) :: rest =>
      if s.received.length < n then
        some { s with
          errChan := rest, received := (i, err) :: s.received, result := err.map Except.error }
      else none
    | _, _ => none
  | .complete =>
    if s.result.isNone ∧ s.received.length = n then
      some { s with result := some (.ok ((List.range n).map s.completedParts)) }
    else none

end ContainerRegistry.Model.MultipartCopies
