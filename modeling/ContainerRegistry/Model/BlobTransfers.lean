import Mathlib.Data.Nat.Notation

/-!
# Transfers between storage drivers

`TransferTo` of the filesystem and of the in-memory driver, and `Transfer` of
`blobtransferservice.go`. A driver is what its calls show: a file or a directory at a path. Only an
in-memory driver may be its own destination (`transferToItself`). A call may fail (`Faults`).
-/

namespace ContainerRegistry.Model.BlobTransfers

inductive Node where
  | dir
  | file (content : List UInt8)
  deriving DecidableEq, Repr

def Node.size : Node → ℕ
  | .dir => 0
  | .file content => content.length

abbrev Files (κ : Type) := List κ → Option Node

inductive Kind where
  | filesystem
  | inmemory
  deriving DecidableEq, Repr

inductive Cause where
  | pathNotFound
  | notFile
  | sizeMismatch (src dest : ℕ)
  | fault
  deriving DecidableEq, Repr

inductive Error (κ : Type) where
  | invalidPath
  | incompatible
  | plain (cause : Cause)
  | partialTransfer (srcPath destPath : List κ) (cause : Cause)
  deriving DecidableEq, Repr

structure Faults where
  -- the destination is a driver of the same kind, with another root directory
  compatible : Bool
  reader : Bool
  -- the writer, the copy or the commit fails, and what is at the destination then
  write : Bool
  left : Option Node
  stat : Bool
  -- the calls of the service that come before and after the transfer
  lookup : Bool
  delete : Bool

variable {κ : Type} [DecidableEq κ]

/-- The filesystem driver opens a directory too, and reading it fails. filesystem/driver.go:155-174,
inmemory/driver.go:119-136 -/
def openSource (kind : Kind) : Option Node → Except Cause (Option (List UInt8))
  | none => .error .pathNotFound
  | some (.file content) => .ok (some content)
  | some .dir => if kind = .filesystem then .ok none else .error .notFile

/-- There is a directory at the path, or a file above it. -/
def blocked (dest : Files κ) (p : List κ) : Bool :=
  dest p = some .dir || (List.range p.length).any fun n => match dest (p.take n) with
    | some (.file _) => true
    | _ => false

/-- filesystem/driver.go:176-206, inmemory/driver.go:140-156 -/
def mkfile (dest : Files κ) (p : List κ) (node : Option Node) : Files κ :=
  fun q => if q = p then node else if q.isPrefixOf p then some .dir else dest q

/-- After the copy the size is compared with that of the source path in the destination.
filesystem/driver.go:351-386, inmemory/driver.go:281-316 -/
def transferTo (kind : Kind) (x : Faults) (src dest : Files κ) (srcPath destPath : List κ) :
    Files κ × Option (Error κ) :=
  let failed := fun cause => some (Error.partialTransfer srcPath destPath cause)
  if !x.compatible then (dest, some .incompatible)
  else if x.reader then (dest, some (.plain .fault))
  else match openSource kind (src srcPath) with
    | .error cause => (dest, some (.plain cause))
    | .ok opened =>
      if blocked dest destPath then (dest, failed .notFile)
      else match if x.write then none else opened with
        | none => (mkfile dest destPath x.left, failed .fault)
        | some content =>
          let dest' := mkfile dest destPath (some (.file content))
          if x.stat then (dest', failed .fault)
          else match dest' srcPath with
            | none => (dest', failed .pathNotFound)
            | some node =>
              if node.size = content.length then (dest', none)
              else (dest', failed (.sizeMismatch node.size content.length))

/-- An in-memory driver as its own destination. At the same path the writer truncates the file that
is being read: reads up to the old size then return no byte and no error, and the copy of a file
that is not empty goes on forever (`none`). inmemory/mfs.go:286-296 -/
def transferToItself (x : Faults) (files : Files κ) (srcPath destPath : List κ) :
    Option (Files κ × Option (Error κ)) :=
  let endless := match files srcPath with
    | some (.file (_ :: _)) =>
      srcPath = destPath && x.compatible && !x.reader && !x.write && !blocked files destPath
    | _ => false
  if endless then none else some (transferTo .inmemory x files files srcPath destPath)

/-- What `Transfer` returns: an error of `Stat`, or `ErrBlobTransferFailed`. -/
inductive Failure (δ κ : Type) where
  | stat (cause : Cause)
  | transfer (digest : δ) (reason : Error κ) (cleanup : Bool) (cleanupErr : Option Cause)
  deriving DecidableEq, Repr

/-- A partial transfer is cleaned up; a path that is not there is clean.
blobtransferservice.go:26-67 -/
def transfer {δ : Type} (pathFor : δ → Option (List κ)) (kind : Kind) (x : Faults)
    (src dest : Files κ) (dgst : δ) : Files κ × Option (Failure δ κ) :=
  match pathFor dgst with
  | none => (dest, some (.transfer dgst .invalidPath false none))
  | some p =>
    if x.lookup then (dest, some (.stat .fault))
    else if (dest p).isSome then (dest, none)
    else match transferTo kind x src dest p p with
      | (dest', none) => (dest', none)
      | (dest', some (.partialTransfer s d cause)) =>
        let failed := Failure.transfer dgst (.partialTransfer s d cause) true
        if x.delete then (dest', some (failed (some .fault)))
        else (fun q => if p.isPrefixOf q then none else dest' q, some (failed none))
      | (dest', some e) => (dest', some (.transfer dgst e false none))

end ContainerRegistry.Model.BlobTransfers
