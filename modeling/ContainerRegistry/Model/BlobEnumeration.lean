import Mathlib.Data.List.DropRight
import ContainerRegistry.Model.Paths

/-!
# The digests of the blobs in the storage

`digestFromPath` of `registry/storage/paths.go` and the callback of `blobStore.Enumerate`. A
character stands for a byte.
-/

namespace ContainerRegistry.Model.BlobEnumeration

open Paths Library

/-- `path.Split` -/
def split (p : Str) : Str × Str := (p.rdropWhile (· ≠ '/'), p.rtakeWhile (· ≠ '/'))

/-- `path.Dir` -/
def dir (p : Str) : Str := CleanPaths.clean '/' '.' (split p).1

/-- `path.Base` -/
def base (p : Str) : Str :=
  if p = [] then ['.'] else
  let file := (split (p.rdropWhile (· = '/'))).2
  if file = [] then ['/'] else file

/-- `strings.TrimSuffix` -/
def trimSuffix (p suffix : Str) : Str :=
  if suffix.isSuffixOf p then p.take (p.length - suffix.length) else p

/-- The digest, and whether it is valid; none where `hex[:2]` panics. paths.go:479-496 -/
def digestFromPath (digestPath : Str) : Option (Str × Bool) :=
  let (dir₁, hex) := split (trimSuffix digestPath "/data".toList)
  let (dir₂, next) := split (dir dir₁)
  if hex.length < 2 then none else
  let algo := if next = hex.take 2 then base dir₂ else next
  let dgst := algo ++ ':' :: hex
  some (dgst, validDigest dgst)

inductive Outcome where
  | ignored
  | ingested (dgst : Str)
  | failed
  | panics
  deriving DecidableEq

/-- What the callback does about a file or a directory. blobstore.go:98-119 -/
def handleFile (isDir : Bool) (currentPath : Str) : Outcome :=
  if isDir ∨ (split currentPath).2 ≠ "data".toList then .ignored else
  match digestFromPath currentPath with
  | none => .panics
  | some (_, false) => .failed
  | some (dgst, true) => .ingested dgst

end ContainerRegistry.Model.BlobEnumeration
