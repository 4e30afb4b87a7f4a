import ContainerRegistry.Library.Appenders
import ContainerRegistry.Library.Stages

/-!
# The segmented writer of the Swift storage driver

`PutContent`, `Writer`, `Write`, `Close`, `Commit` and `Stat` of `driver/swift/swift.go` for one
path of a container. A file is a plain object, or a manifest with the path of its segments.

Listings may omit segments, and so may what a manifest is made of when its size is asked for
(`Poll`). Other requests may fail (`faults`). A random segments path is taken from `serial`.
`Cancel`, other paths and the segments of replaced files are left out.
-/

namespace ContainerRegistry.Model.SwiftUploads

open Library
open Library.Appender (Outcome)

variable {α : Type}

/-- swift.go:49-50 -/
def minChunkSize : ℕ := 1024 * 1024

/-! ## The container -/

structure Segment (α : Type) where
  number : ℕ
  body : List α
  deriving DecidableEq

inductive File (α : Type) where
  | plain (body : List α)
  | manifest (segmentsPath : ℕ)
  deriving DecidableEq

/-- A request for the size of the manifest: it fails, or some segments are not there yet. -/
inductive Poll where
  | fail
  | omits (numbers : List ℕ)
  deriving DecidableEq

structure Replies where
  /-- Whether the requests fail, other than polls. -/
  faults : List Bool
  /-- The segments that a listing of the container omits. -/
  omitted : List ℕ
  /-- The polls until the time is over. -/
  polls : List Poll
  deriving DecidableEq

inductive Error where
  | fault
  | pathNotFound
  /-- "timeout expired while waiting for segments of %s to show up" -/
  | timeout
  /-- The search for segments goes on. -/
  | endless
  | text (message : String)
  deriving DecidableEq

/-- The buffer and the error `err` are those of `bw`, and the segment number is the one of the
`segmentWriter` below. swift.go:817-826, 942-948 -/
structure Writer (α : Type) where
  segmentsPath : ℕ
  size : ℕ
  buffer : List α
  err : Option Error
  segmentNumber : ℕ
  closed : Bool
  committed : Bool
  deriving DecidableEq

/-- The file, the segments at each segments path in the order of their numbers, and the writer. -/
structure World (α : Type) where
  file : Option (File α)
  segments : ℕ → List (Segment α)
  serial : ℕ
  writer : Writer α
  replies : Replies
  overwritten : Bool

abbrev Action (α : Type) := Stage (World α) Error

def insertSegment (q : Segment α) (qs : List (Segment α)) : List (Segment α) :=
  qs.filter (fun x => x.number < q.number) ++ q :: qs.filter (fun x => q.number < x.number)

def bodies (qs : List (Segment α)) : List α := qs.flatMap Segment.body

def World.putObject (w : World α) (path : ℕ) (q : Segment α) : World α :=
  { w with
    segments := fun x => if x = path then insertSegment q (w.segments x) else w.segments x
    overwritten := w.overwritten || (w.segments path).any fun x => x.number = q.number }

/-- The size of the file, without the segments that are omitted. -/
def World.bytes (w : World α) (omitted : List ℕ) : Option ℕ :=
  match w.file with
  | none => none
  | some (.plain body) => some body.length
  | some (.manifest path) =>
    some (bodies ((w.segments path).filter fun q => q.number ∉ omitted)).length

/-- The content of the file, once all of its segments have shown up. swift.go:304-311 -/
def World.content (w : World α) : Option (List α) :=
  match w.file with
  | none => none
  | some (.plain body) => some body
  | some (.manifest path) => some (bodies (w.segments path))

def request (f : World α → World α) : Action α := fun w =>
  let rest := { w with replies := { w.replies with faults := w.replies.faults.tail } }
  if w.replies.faults.head? = some true then (rest, some .fault) else (f rest, none)

/-- The pieces in which the segment writer puts its input; `fuel` is a bound on their number.
swift.go:950-957 -/
def chunks (maxChunkSize : ℕ) : ℕ → List α → List (List α)
  | _, [] => []
  | 0, _ :: _ => []
  | fuel + 1, x :: xs =>
    (x :: xs).take maxChunkSize :: chunks maxChunkSize fuel ((x :: xs).drop maxChunkSize)

/-- swift.go:957-962 -/
def putSegment (chunk : List α) : Action α := request fun w =>
  let w' := w.putObject w.writer.segmentsPath ⟨w.writer.segmentNumber, chunk⟩
  { w' with writer := { w'.writer with segmentNumber := w'.writer.segmentNumber + 1 } }

/-- swift.go:950-968 -/
def putSegments : List (List α) → World α → (World α × ℕ) × Option Error
  | [], w => ((w, 0), none)
  | chunk :: rest, w =>
    match putSegment chunk w with
    | (w, some e) => ((w, 0), some e)
    | (w, none) =>
      match putSegments rest w with
      | ((w, n), e) => ((w, chunk.length + n), e)

def flush (chunkSize : ℕ) : Action α := fun w =>
  if w.writer.err.isSome then (w, w.writer.err)
  else
    match putSegments (chunks chunkSize w.writer.buffer.length w.writer.buffer) w with
    | ((w, n), e) =>
      ({ w with writer := { w.writer with buffer := w.writer.buffer.drop n, err := e } }, e)

/-- `Write` of `bw` when the buffer is empty: input that is larger is written directly. -/
def fillBuffer (chunkSize : ℕ) (p : List α) (w : World α) : (World α × ℕ) × Option Error :=
  if p.length ≤ chunkSize then
    (({ w with writer := { w.writer with buffer := p } }, p.length), none)
  else
    match putSegments (chunks chunkSize p.length p) w with
    | ((w, n), e) => (({ w with writer := { w.writer with err := e } }, n), e)

/-- `Write` of `bw`. A buffer that is not empty is filled up and flushed first. -/
def writeBuffer (chunkSize : ℕ) (p : List α) (w : World α) : (World α × ℕ) × Option Error :=
  if w.writer.err.isSome then ((w, 0), w.writer.err)
  else if w.writer.buffer.length = 0 then fillBuffer chunkSize p w
  else
    let n := chunkSize - w.writer.buffer.length
    if p.length ≤ n then
      (({ w with writer := { w.writer with buffer := w.writer.buffer ++ p } }, p.length), none)
    else
      match flush chunkSize { w with writer := { w.writer with
          buffer := w.writer.buffer ++ p.take n } } with
      | (w, some e) => ((w, n), some e)
      | (w, none) =>
        match fillBuffer chunkSize (p.drop n) w with
        | ((w, m), e) => ((w, n + m), e)

/-! ## The writer -/

/-- swift.go:828-846 -/
def newWriter (segmentsPath : ℕ) (segments : List (Segment α)) : Writer α where
  segmentsPath := segmentsPath
  size := segments.foldl (fun size segment => size + segment.body.length) 0
  buffer := []
  err := none
  segmentNumber := segments.length + 1
  closed := false
  committed := false

def outcome : Option Error → Outcome Error
  | none => .ok
  | some e => .failed e

/-- swift.go:848-860 -/
def write (chunkSize : ℕ) (p : List α) (w : World α) : (World α × ℕ) × Outcome Error :=
  if w.writer.closed then ((w, 0), .failed (.text "already closed"))
  else if w.writer.committed then ((w, 0), .failed (.text "already committed"))
  else
    match writeBuffer chunkSize p w with
    | ((w, n), e) =>
      (({ w with writer := { w.writer with size := w.writer.size + n } }, n), outcome e)

/-- swift.go:762-780 -/
def createManifest : Action α :=
  request fun w => { w with file := some (.manifest w.writer.segmentsPath) }

/-- The error is the one of the last poll. swift.go:919-940 -/
def awaitBytes (w : World α) : List Poll → Error → Option Error
  | [], e => some e
  | .fail :: polls, _ => awaitBytes w polls .fault
  | .omits numbers :: polls, _ =>
    if w.bytes numbers = some w.writer.size then none else awaitBytes w polls .timeout

/-- swift.go:919-940 -/
def waitForSegmentsToShowUp : Action α := Stage.check fun w => awaitBytes w w.replies.polls .timeout

/-- swift.go:866-886 -/
def close (chunkSize : ℕ) : Action α :=
  (Stage.check fun w => if w.writer.closed then some (.text "already closed") else none).andThen <|
  (flush chunkSize).andThen <|
  Stage.andThen (fun w => Stage.when (!w.writer.committed)
    (createManifest.andThen waitForSegmentsToShowUp) w)
    fun w => ({ w with writer := { w.writer with closed := true } }, none)

/-- swift.go:898-917 -/
def commit (chunkSize : ℕ) : Action α :=
  (Stage.check fun w => if w.writer.closed then some (.text "already closed")
    else if w.writer.committed then some (.text "already committed") else none).andThen <|
  (flush chunkSize).andThen <|
  createManifest.andThen <|
  Stage.andThen (fun w => ({ w with writer := { w.writer with committed := true } }, none))
    waitForSegmentsToShowUp

/-! ## Opening -/

/-- The search for segments that the listing does not have: `listed` are the numbers it has.
swift.go:727-758 -/
def findSegments (path : ℕ) (listed : List ℕ) :
    List ℕ → List (Segment α) → World α → (World α × List (Segment α)) × Option Error
  | [], found, w => ((w, found), some .endless)
  | number :: numbers, found, w =>
    if number ∈ listed then findSegments path listed numbers found w
    else
      match request id w with
      | (w, some e) => ((w, found), some e)
      | (w, none) =>
        match (w.segments path).find? fun q => q.number = number with
        | some q => findSegments path listed numbers (found ++ [q]) w
        | none => ((w, found), none)

/-- The segments at a path. The search comes to an end with the number of segments plus one at the
latest. swift.go:713-759 -/
def getAllSegments (path : ℕ) (w : World α) : (World α × List (Segment α)) × Option Error :=
  match request id w with
  | (w, some e) => ((w, []), some e)
  | (w, none) =>
    let segments := (w.segments path).filter fun q => q.number ∉ w.replies.omitted
    findSegments path (segments.map Segment.number)
      (List.range' 1 ((w.segments path).length + 1)) segments w

/-- swift.go:374-378, 404 -/
def createWriter : Action α := fun w =>
  ({ w with serial := w.serial + 1, writer := newWriter w.serial [] }, none)

/-- The plain object becomes the segment with the number 0, which is `len(segments)` here.
swift.go:387-395 -/
def movePlain (body : List α) : Action α := request fun w =>
  let w' := w.putObject w.serial ⟨0, body⟩
  { w' with file := none, serial := w.serial + 1, writer := newWriter w.serial [⟨0, body⟩] }

/-- swift.go:379-404 -/
def reopenWriter : Action α := fun w =>
  match request id w with
  | (w, some e) => (w, some e)
  | (w, none) =>
    match w.file with
    | none => (w, some .pathNotFound)
    | some (.plain body) => movePlain body w
    | some (.manifest path) =>
      match getAllSegments path w with
      | ((w, _), some e) => (w, some e)
      | ((w, segments), none) => ({ w with writer := newWriter path segments }, none)

/-- swift.go:313-320 -/
def putContent (contents : List α) : Action α :=
  request fun w => { w with file := some (.plain contents) }

/-- The size that `Stat` reports, from the polls it makes until the time is over. swift.go:441-469
-/
def stat (w : World α) : List Poll → Except Error ℕ
  | [] => .error .timeout
  | .fail :: _ => .error .fault
  | .omits numbers :: polls =>
    match w.file, w.bytes numbers with
    | some (.manifest _), some 0 => stat w polls
    | _, some n => .ok n
    | _, none => .error .pathNotFound

def call (a : Action α) (r : Replies) (w : World α) : World α × Outcome Error :=
  ((a { w with replies := r }).1, outcome (a { w with replies := r }).2)

def driver (chunkSize : ℕ) : Appender (World α) α Error Replies where
  put := fun r p w => call (putContent p) r w
  create := fun r w => call createWriter r w
  reopen := fun r w => call reopenWriter r w
  write := fun r p w => write chunkSize p { w with replies := r }
  close := fun r w => call (close chunkSize) r w
  commit := fun r w => call (commit chunkSize) r w

def World.empty (file : Option (List α)) : World α :=
  ⟨file.map .plain, fun _ => [], 1, newWriter 0 [], ⟨[], [], []⟩, false⟩

end ContainerRegistry.Model.SwiftUploads
