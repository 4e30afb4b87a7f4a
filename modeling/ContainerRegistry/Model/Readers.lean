import Mathlib.Data.Nat.Notation

/-!
# Readers of a stored content

`fileReader` of `storage/filereader.go` and `httpReadSeeker` of `client/transport/http_reader.go`.
Both open a stream at an offset, which hands the content out in pieces of any size, and another one
after a seek. The server of the second one honours byte ranges; a request may get no answer
(`Reply`).
-/

namespace ContainerRegistry.Model.Readers

variable {α : Type}

inductive Err where
  | eof
  /-- "fileReader: closed", "httpLayer: closed" -/
  | closed
  /-- "cannot seek to negative position" -/
  | negative
  /-- "content length not known" -/
  | unknownLength
  /-- A request to the driver or to the server has failed. -/
  | request
  deriving DecidableEq

/-- How many bytes a stream hands out at most, and whether it tells the end with the last ones. -/
structure Piece where
  size : ℕ
  eof : Bool

/-- `Read` of a stream with `rest` left, into a buffer of `m` bytes: what is read, whether the
error is `io.EOF`, and what is left. -/
def readStream (rest : List α) (m : ℕ) (piece : Piece) : (List α × Bool) × List α :=
  let n := min piece.size m
  ((rest.take n, (rest.drop n).isEmpty && (piece.eof || rest.isEmpty && 0 < m)), rest.drop n)

inductive Whence where
  | seekStart
  | seekCurrent
  | seekEnd
  deriving DecidableEq

def newOffset (offset size off : Int64) : Whence → Int64
  | .seekStart => off
  | .seekCurrent => offset + off
  | .seekEnd => size + off

inductive Call where
  | read (m : ℕ)
  | seek (off : Int64) (whence : Whence)
  | close

inductive Answer (α : Type) where
  | read (out : List α) (err : Option Err)
  | seek (offset : Int64) (err : Option Err)
  | close (err : Option Err)

def Answer.err : Answer α → Option Err
  | .read _ e | .seek _ e | .close e => e

/-! ## The file reader -/

/-- filereader.go:19 -/
def fileReaderBufferSize : ℕ := 4 <<< 20

/-- A `bufio.Reader`: its buffer, what its stream has left, and an `io.EOF` to be returned. -/
structure Bufio (α : Type) where
  buf : List α
  rd : List α
  err : Bool

/-- `Read` of `bufio.Reader`. -/
def Bufio.read (b : Bufio α) (m : ℕ) (piece : Piece) : (List α × Bool) × Bufio α :=
  if m = 0 then
    if b.buf = [] then (([], b.err), { b with err := false }) else (([], false), b)
  else if b.buf = [] then
    if b.err then (([], true), { b with err := false })
    else if fileReaderBufferSize ≤ m then
      let (res, rest) := readStream b.rd m piece
      (res, ⟨[], rest, false⟩)
    else
      let ((out, eof), rest) := readStream b.rd fileReaderBufferSize piece
      if out = [] then (([], eof), ⟨[], rest, false⟩)
      else ((out.take m, false), ⟨out.drop m, rest, eof⟩)
  else ((b.buf.take m, false), { b with buf := b.buf.drop m })

/-- `rc` is the buffered reader over the stream, while there is one. filereader.go:24-38 -/
structure FileReader (α : Type) where
  size : Int64
  rc : Option (Bufio α)
  offset : Int64
  err : Option Err

/-- filereader.go:44-51 -/
def newFileReader (size : Int64) : FileReader α := ⟨size, none, 0, none⟩

/-- The answer of the driver to `Reader`. -/
inductive Opened where
  | stream
  | pathNotFound
  | failed
  deriving DecidableEq

/-- The reader to read from; none stands for an empty one that is not kept. filereader.go:111-144 -/
def FileReader.reader (content : List α) (opened : Opened) (fr : FileReader α) :
    Except Err (Option (Bufio α)) :=
  match fr.rc, opened with
  | some b, _ => .ok (some b)
  | none, .stream => .ok (some ⟨[], content.drop fr.offset.toInt.toNat, false⟩)
  | none, .pathNotFound => .ok none
  | none, .failed => .error .request

/-- filereader.go:53-72 -/
def FileReader.read (content : List α) (fr : FileReader α) (m : ℕ) (opened : Opened)
    (piece : Piece) : Answer α × FileReader α :=
  if fr.err.isSome then (.read [] fr.err, fr) else
  match fr.reader content opened with
  | .error e => (.read [] (some e), fr)
  | .ok none => (.read [] (some .eof), fr)
  | .ok (some b) =>
    let ((out, eof), b) := b.read m piece
    let offset := fr.offset + .ofNat out.length
    (.read out (if eof || fr.size ≤ offset then some .eof else none),
      { fr with rc := some b, offset })

/-- filereader.go:74-103, 150-158 -/
def FileReader.seek (fr : FileReader α) (off : Int64) (whence : Whence) : Answer α × FileReader α :=
  if fr.err.isSome then (.seek 0 fr.err, fr) else
  let offset := newOffset fr.offset fr.size off whence
  if offset < 0 then (.seek fr.offset (some .negative), fr)
  else (.seek offset none, { fr with rc := if fr.offset = offset then fr.rc else none, offset })

/-- Also the first `Close` returns the error. filereader.go:105-107, 160-176 -/
def FileReader.close (fr : FileReader α) : Answer α × FileReader α :=
  if fr.err.isSome then (.close fr.err, fr)
  else (.close (some .closed), { fr with rc := none, err := some .closed })

def FileReader.exec (content : List α) (fr : FileReader α) (c : Call) (x : Opened × Piece) :
    Answer α × FileReader α :=
  match c with
  | .read m => fr.read content m x.1 x.2
  | .seek off whence => fr.seek off whence
  | .close => fr.close

/-! ## The HTTP reader -/

/-- `rc` is what the body of the response has left. http_reader.go:39-61 -/
structure HttpReadSeeker (α : Type) where
  size : Int64
  rc : Option (List α)
  readerOffset : Int64
  seekOffset : Int64
  err : Option Err

def newHTTPReadSeeker : HttpReadSeeker α := ⟨0, none, 0, 0, none⟩

/-- What becomes of a request: it may get no answer, or one that does not state the size (a `*` in
the `Content-Range`, or no `Content-Length`). -/
structure Reply where
  lost : Bool
  sized : Bool

/-- The response to a request from an offset on is a 416 if there is nothing there. The expression
for its `Content-Range` is a raw string with `\\*`: of a `*` it matches nothing, and the empty text
is no number. http_reader.go:13, 162-250 -/
def HttpReadSeeker.reader (content : List α) (reply : Reply) (hrs : HttpReadSeeker α) :
    Except Err (List α × HttpReadSeeker α) :=
  match hrs.rc with
  | some rest => .ok (rest, hrs)
  | none =>
    let start := hrs.readerOffset.toInt.toNat
    let size := Int64.ofNat content.length
    if reply.lost then .error .request
    else if 0 < hrs.readerOffset then
      if content.length ≤ start then .error .request
      else if !reply.sized then .error .request
      else .ok (content.drop start, { hrs with size, rc := some (content.drop start) })
    else .ok (content, { hrs with size := if reply.sized then size else -1, rc := some content })

/-- After a seek the connection is given up. http_reader.go:74-80, 152-160 -/
def HttpReadSeeker.sync (hrs : HttpReadSeeker α) : HttpReadSeeker α :=
  { hrs with
    rc := if hrs.readerOffset = hrs.seekOffset then hrs.rc else none
    readerOffset := hrs.seekOffset }

/-- http_reader.go:63-90 -/
def HttpReadSeeker.read (content : List α) (hrs : HttpReadSeeker α) (m : ℕ) (reply : Reply)
    (piece : Piece) : Answer α × HttpReadSeeker α :=
  if hrs.err.isSome then (.read [] hrs.err, hrs) else
  match hrs.sync.reader content reply with
  | .error e => (.read [] (some e), hrs.sync)
  | .ok (rest, hrs) =>
    let ((out, eof), rest) := readStream rest m piece
    (.read out (if eof then some .eof else none),
      { hrs with
        rc := some rest
        seekOffset := hrs.seekOffset + .ofNat out.length
        readerOffset := hrs.readerOffset + .ofNat out.length })

/-- http_reader.go:92-133 -/
def HttpReadSeeker.seek (content : List α) (hrs : HttpReadSeeker α) (off : Int64)
    (whence : Whence) (reply : Reply) : Answer α × HttpReadSeeker α :=
  if hrs.err.isSome then (.seek 0 hrs.err, hrs) else
  let readerOffset := if whence = .seekStart ∧ hrs.rc.isNone then off else hrs.readerOffset
  match { hrs with readerOffset }.reader content reply with
  | .error e => (.seek 0 (some e), hrs)
  | .ok (_, hrs) =>
    if whence = .seekEnd ∧ hrs.size < 0 then (.seek 0 (some .unknownLength), hrs) else
    let offset := newOffset hrs.seekOffset hrs.size off whence
    if offset < 0 then (.seek hrs.seekOffset (some .negative), hrs)
    else (.seek offset none, { hrs with seekOffset := offset })

/-- http_reader.go:135-150 -/
def HttpReadSeeker.close (hrs : HttpReadSeeker α) : Answer α × HttpReadSeeker α :=
  if hrs.err.isSome then (.close hrs.err, hrs)
  else (.close none, { hrs with rc := none, err := some .closed })

def HttpReadSeeker.exec (content : List α) (hrs : HttpReadSeeker α) (c : Call)
    (x : Reply × Piece) : Answer α × HttpReadSeeker α :=
  match c with
  | .read m => hrs.read content m x.1 x.2
  | .seek off whence => hrs.seek content off whence x.1
  | .close => hrs.close

end ContainerRegistry.Model.Readers
