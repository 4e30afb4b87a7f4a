import Mathlib.Data.Nat.Digits.Defs
import ContainerRegistry.Library.CleanPaths
import ContainerRegistry.Library.Words

/-!
# Names and storage paths

`reference/regexp.go` and `registry/storage/paths.go`, on strings: what names, tags, digests and
upload ids are valid, and the path `pathFor` gives for each kind of object. `path.Join` is
`CleanPaths.join`.

An upload id is what the route of an upload accepts, `.` and `..` included, and a digest is one
`digest.Validate` accepts. An error of `pathFor` is `none`.
-/

namespace ContainerRegistry.Model.Paths

open Library Library.Words

abbrev Str := List Char

/-! ## The grammar -/

def lower : Str := "abcdefghijklmnopqrstuvwxyz".toList

def upper : Str := "ABCDEFGHIJKLMNOPQRSTUVWXYZ".toList

def digit : Str := "0123456789".toList

def expression : List (RegularExpression Char) → RegularExpression Char
  | [] => .epsilon
  | [P] => P
  | P :: Ps => .comp P (expression Ps)

/-- regexp.go:6-8 -/
def alphaNumericRegexp : RegularExpression Char := repeated (oneOf (lower ++ digit))

/-- regexp.go:10-13 -/
def separatorRegexp : RegularExpression Char :=
  .plus (oneOf ['.', '_']) (.plus (literal ['_', '_']) (.star (oneOf ['-'])))

/-- regexp.go:15-20 -/
def nameComponentRegexp : RegularExpression Char :=
  expression [alphaNumericRegexp,
    optional (repeated (expression [separatorRegexp, alphaNumericRegexp]))]

/-- regexp.go:22-25 -/
def domainComponentRegexp : RegularExpression Char :=
  .plus (oneOf (lower ++ upper ++ digit)) <|
    expression [oneOf (lower ++ upper ++ digit), .star (oneOf ('-' :: lower ++ upper ++ digit)),
      oneOf (lower ++ upper ++ digit)]

/-- regexp.go:27-34 -/
def domainRegexp : RegularExpression Char :=
  expression [domainComponentRegexp,
    optional (repeated (expression [literal ['.'], domainComponentRegexp])),
    optional (expression [literal [':'], repeated (oneOf digit)])]

/-- regexp.go:36-37 -/
def tagRegexp : RegularExpression Char :=
  expression [oneOf ('_' :: lower ++ upper ++ digit),
    upTo (oneOf ('_' :: '.' :: '-' :: lower ++ upper ++ digit)) 127]

/-- regexp.go:50-56 -/
def nameRegexp : RegularExpression Char :=
  expression [optional (expression [domainRegexp, literal ['/']]), nameComponentRegexp,
    optional (repeated (expression [literal ['/'], nameComponentRegexp]))]

/-- The ids in the route of an upload. descriptors.go:1240 -/
def uploadIDRegexp : RegularExpression Char :=
  repeated (oneOf ('-' :: '_' :: '.' :: '=' :: lower ++ upper ++ digit))

/-! ## Digests and numbers -/

/-- The algorithms that are available, and the length of their digests in hexadecimal. -/
def algorithms : List (Str × ℕ) :=
  [("sha256".toList, 64), ("sha384".toList, 96), ("sha512".toList, 128)]

def splitDigest (dgst : Str) : Str × Str :=
  (dgst.takeWhile (· ≠ ':'), (dgst.dropWhile (· ≠ ':')).drop 1)

/-- `digest.Validate`: an available algorithm, and as many lower case hexadecimal digits. -/
def validDigest (dgst : Str) : Bool :=
  dgst.contains ':' &&
    algorithms.any fun a => (splitDigest dgst).1 = a.1 ∧ (splitDigest dgst).2.length = a.2 ∧
      (splitDigest dgst).2.all fun c => c ∈ digit ++ "abcdef".toList

/-- paths.go:364-371 -/
def blobAlgorithmReplacer (s : Str) : Str :=
  s.map fun c => if c = '+' ∨ c = '.' ∨ c = ';' then '/' else c

/-- paths.go:459-485 -/
def digestPathComponents (dgst : Str) (multilevel : Bool) : Option (List Str) :=
  if validDigest dgst then
    let algorithm := blobAlgorithmReplacer (splitDigest dgst).1
    let hex := (splitDigest dgst).2
    some (algorithm :: ((if multilevel then [hex.take 2] else []) ++ [hex]))
  else none

def decimalNat (n : ℕ) : Str :=
  if n = 0 then ['0'] else ((Nat.digits 10 n).map Nat.digitChar).reverse

def decimal (n : Int) : Str := if n < 0 then '-' :: decimalNat n.natAbs else decimalNat n.natAbs

/-! ## Paths -/

/-- paths.go:265-441 -/
inductive PathSpec where
  | manifestRevisions (name : Str)
  | manifestRevision (name revision : Str)
  | manifestRevisionLink (name revision : Str)
  | manifestTags (name : Str)
  | manifestTag (name tag : Str)
  | manifestTagCurrent (name tag : Str)
  | manifestTagIndex (name tag : Str)
  | manifestTagIndexEntry (name tag revision : Str)
  | manifestTagIndexEntryLink (name tag revision : Str)
  | layerLink (name digest : Str)
  | blobs
  | blob (digest : Str)
  | blobData (digest : Str)
  | uploadData (name id : Str)
  | uploadStartedAt (name id : Str)
  | uploadHashState (name id alg : Str) (offset : Int) (list : Bool)
  | repositoriesRoot
  | repositoryRoot (name : Str)
  deriving DecidableEq, Repr

def join (elements : List Str) : Str := CleanPaths.join '/' '.' elements

/-- paths.go:121 -/
def rootPrefix : List Str := ["/docker/registry/".toList, "v2".toList]

/-- paths.go:122 -/
def repoPrefix : List Str := rootPrefix ++ ["repositories".toList]

def manifestsDir : Str := "_manifests".toList

def layersDir : Str := "_layers".toList

def uploadsDir : Str := "_uploads".toList

/-- paths.go:129-135 -/
def manifestRevisionPath (name revision : Str) : Option Str :=
  (digestPathComponents revision false).map fun components =>
    join (repoPrefix ++ [name, manifestsDir, "revisions".toList] ++ components)

/-- paths.go:147-148 -/
def manifestTagsPath (name : Str) : Str := join (repoPrefix ++ [name, manifestsDir, "tags".toList])

/-- paths.go:149-158 -/
def manifestTagPath (name tag : Str) : Str := join [manifestTagsPath name, tag]

/-- paths.go:170-180 -/
def manifestTagIndexPath (name tag : Str) : Str := join [manifestTagPath name tag, "index".toList]

/-- paths.go:193-208 -/
def manifestTagIndexEntryPath (name tag revision : Str) : Option Str :=
  (digestPathComponents revision false).map fun components =>
    join [manifestTagIndexPath name tag, join components]

/-- paths.go:106-259 -/
def pathFor : PathSpec → Option Str
  | .manifestRevisions name => some (join (repoPrefix ++ [name, manifestsDir, "revisions".toList]))
  | .manifestRevision name revision => manifestRevisionPath name revision
  | .manifestRevisionLink name revision =>
    (manifestRevisionPath name revision).map fun root => join [root, "link".toList]
  | .manifestTags name => some (manifestTagsPath name)
  | .manifestTag name tag => some (manifestTagPath name tag)
  | .manifestTagCurrent name tag =>
    some (join [manifestTagPath name tag, "current".toList, "link".toList])
  | .manifestTagIndex name tag => some (manifestTagIndexPath name tag)
  | .manifestTagIndexEntry name tag revision => manifestTagIndexEntryPath name tag revision
  | .manifestTagIndexEntryLink name tag revision =>
    (manifestTagIndexEntryPath name tag revision).map fun root => join [root, "link".toList]
  | .layerLink name digest =>
    (digestPathComponents digest false).map fun components =>
      join [join (repoPrefix ++ [name, layersDir] ++ components), "link".toList]
  | .blobs => some (join (rootPrefix ++ ["blobs".toList]))
  | .blob digest =>
    (digestPathComponents digest true).map fun components =>
      join (rootPrefix ++ ["blobs".toList] ++ components)
  | .blobData digest =>
    (digestPathComponents digest true).map fun components =>
      join (rootPrefix ++ ["blobs".toList] ++ (components ++ ["data".toList]))
  | .uploadData name id => some (join (repoPrefix ++ [name, uploadsDir, id, "data".toList]))
  | .uploadStartedAt name id =>
    some (join (repoPrefix ++ [name, uploadsDir, id, "startedat".toList]))
  | .uploadHashState name id alg offset list =>
    some (join (repoPrefix ++ [name, uploadsDir, id, "hashstates".toList, alg,
      if list then [] else decimal offset]))
  | .repositoriesRoot => some (join repoPrefix)
  | .repositoryRoot name => some (join (repoPrefix ++ [name]))

end ContainerRegistry.Model.Paths
