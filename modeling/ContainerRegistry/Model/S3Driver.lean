import ContainerRegistry.Library.SortedListing
import Mathlib.Data.Char
import Mathlib.Data.List.DropRight

/-!
# The S3 storage driver

`Stat`, `List` and `Delete` of `driver/s3-aws/s3.go` over a bucket. Keys are UTF-8, so their byte
order is that of their letters. `ListObjectsV2` returns the keys with a prefix in this order, in
pages of at least one key and of at most as many as asked for; with a delimiter, keys that have it
behind the prefix are rolled up into one common prefix.

A service decides how long each page is, which requests fail, and which keys a deletion does not
delete (the `Errors` of the response).
-/

namespace ContainerRegistry.Model.S3

open Library

abbrev Key := List Char

structure Object where
  key : Key
  size : ℕ
  modTime : ℕ
  deriving DecidableEq, Repr

structure Bucket where
  objects : List Object
  sorted : SortedBy Object.key objects

inductive Fault where
  | noSuchKey
  | other
  deriving DecidableEq, Repr

inductive Error where
  | pathNotFound (path : Key)
  | request (f : Fault)
  deriving DecidableEq, Repr

/-- s3.go:84-89 -/
def listMax : ℕ := 1000

/-- s3.go:84-89 -/
def deleteMax : ℕ := 1000

structure Service where
  -- the length of a page, unless fewer keys are left or asked for
  pageSize : ℕ → ℕ
  pageSize_pos : ∀ i, 0 < pageSize i
  pageSize_le : ∀ i, pageSize i ≤ listMax
  listFault : ℕ → Option Fault
  deleteFault : ℕ → Option Fault
  refused : Key → Bool

def Service.full : Service where
  pageSize _ := listMax
  pageSize_pos _ := by decide
  pageSize_le _ := le_rfl
  listFault _ := none
  deleteFault _ := none
  refused _ := false

/-! ## Requests -/

inductive Item where
  | content (o : Object)
  | commonPrefix (p : Key)
  deriving DecidableEq, Repr

def Item.content? : Item → Option Object
  | .content o => some o
  | .commonPrefix _ => none

def Item.commonPrefix? : Item → Option Key
  | .content _ => none
  | .commonPrefix p => some p

def toItem (pre : Key) (o : Object) : Item :=
  if (o.key.drop pre.length).contains '/' then
    .commonPrefix (pre ++ (o.key.drop pre.length).takeWhile (· ≠ '/') ++ ['/'])
  else .content o

/-- Roll up objects; a common prefix stands for all that it is rolled up from. -/
def rollUp (pre : Key) : List Object → List Item
  | [] => []
  | o :: os =>
    match rollUp pre os with
    | [] => [toItem pre o]
    | item :: items =>
      if toItem pre o = item then item :: items else toItem pre o :: item :: items

def Bucket.listed (B : Bucket) (pre : Key) (startAfter : Option Key) : List Object :=
  B.objects.filter fun o => decide (pre <+: o.key) && startAfter.all (· < o.key)

structure Response where
  contents : List Object
  commonPrefixes : List Key
  isTruncated : Bool
  deriving DecidableEq, Repr

/-- One page. `token` is how much the pages before, which it continues, have handed out. -/
def listObjectsV2 (B : Bucket) (pre : Key) (delimited : Bool) (startAfter : Option Key)
    (token : ℕ) (n : ℕ) : Response :=
  let objects := B.listed pre startAfter
  let items := (if delimited then rollUp pre objects else objects.map .content).drop token
  ⟨(items.take n).filterMap Item.content?, (items.take n).filterMap Item.commonPrefix?,
    decide (n < items.length)⟩

/-- Delete keys, apart from those the service refuses to. -/
def Bucket.deleteObjects (B : Bucket) (refused : Key → Bool) (keys : List Key) : Bucket where
  objects := B.objects.filter fun o => !(keys.contains o.key && !refused o.key)
  sorted := B.sorted.filter _

/-! ## The driver -/

/-- s3.go:1500-1502 -/
def s3Path (rootDirectory path : Key) : Key :=
  ((rootDirectory.rdropWhile (· = '/')) ++ path).dropWhile (· = '/')

/-- fileinfo.go:29-47 -/
structure FileInfo where
  path : Key
  isDir : Bool
  size : ℕ
  modTime : ℕ
  deriving DecidableEq, Repr

/-- s3.go:788-819 -/
def stat (svc : Service) (root : Key) (B : Bucket) (path : Key) : Except Error FileInfo :=
  match svc.listFault 0 with
  | some f => .error (.request f)
  | none =>
    let resp := listObjectsV2 B (s3Path root path) false none 0 1
    match resp.contents with
    | [o] =>
      if o.key ≠ s3Path root path then .ok ⟨path, true, 0, 0⟩
      else .ok ⟨path, false, o.size, o.modTime⟩
    | _ =>
      if resp.commonPrefixes.length = 1 then .ok ⟨path, true, 0, 0⟩
      else .error (.pathNotFound path)

/-- s3.go:1509-1515 -/
def parseError (path : Key) : Fault → Error
  | .noSuchKey => .pathNotFound path
  | .other => .request .other

def stripRoot (root key : Key) : Key :=
  (if s3Path root [] = [] then ['/'] else []) ++ key.drop (s3Path root []).length

/-- The loop of `List` from the request `i`: the names of files and of directories. -/
def listPages (svc : Service) (root : Key) (B : Bucket) (opath pre : Key) :
    ℕ → ℕ → ℕ → List Key → List Key → Option (Except Error (List Key × List Key))
  | 0, _, _, _, _ => none
  | fuel + 1, i, token, files, directories =>
    match svc.listFault i with
    | some f => some (.error (if i = 0 then parseError opath f else .request f))
    | none =>
      let resp := listObjectsV2 B pre true none token (svc.pageSize i)
      let files := files ++ resp.contents.map fun o => stripRoot root o.key
      let directories := directories ++ resp.commonPrefixes.map fun p => stripRoot root p.dropLast
      if resp.isTruncated then
        listPages svc root B opath pre fuel (i + 1) (token + svc.pageSize i) files directories
      else some (.ok (files, directories))

/-- s3.go:822-888 -/
def list (svc : Service) (root : Key) (B : Bucket) (opath : Key) :
    Option (Except Error (List Key)) :=
  let path := if opath ≠ ['/'] ∧ opath.getLast? ≠ some '/' then opath ++ ['/'] else opath
  (listPages svc root B opath (s3Path root path) (B.objects.length + 1) 0 0 [] []).map fun
    | .error e => .error e
    | .ok (files, directories) =>
      if opath ≠ ['/'] ∧ files = [] ∧ directories = [] then .error (.pathNotFound opath)
      else .ok (files ++ directories)

def isSubpath (s3Path : Key) (o : Object) : Bool :=
  !(decide (s3Path.length < o.key.length) && o.key[s3Path.length]? != some '/')

/-- The loop that lists what is to be deleted, from the request `i`. It ends without keys when a
request fails or a page is empty. -/
def listToDelete (svc : Service) (B : Bucket) (s3Path : Key) :
    ℕ → ℕ → Option Key → List Key → Option (Option (List Key))
  | 0, _, _, _ => none
  | fuel + 1, i, startAfter, s3Objects =>
    if (svc.listFault i).isSome then some none
    else
      let resp := listObjectsV2 B s3Path false startAfter 0 (svc.pageSize i)
      match resp.contents.getLast? with
      | none => some none
      | some last =>
        let s3Objects := s3Objects ++ (resp.contents.takeWhile (isSubpath s3Path)).map Object.key
        if resp.contents.all (isSubpath s3Path) && resp.isTruncated then
          listToDelete svc B s3Path fuel (i + 1) (some last.key) s3Objects
        else some (some s3Objects)

def batches (keys : ℕ) : ℕ := (keys + deleteMax - 1) / deleteMax

/-- The loop that deletes, with `n` requests to go from the request `i`. -/
def deleteBatches (svc : Service) : ℕ → ℕ → List Key → Bucket → Option Error × Bucket
  | 0, _, _, B => (none, B)
  | n + 1, i, keys, B =>
    match svc.deleteFault i with
    | some f => (some (.request f), B)
    | none =>
      deleteBatches svc n (i + 1) (keys.drop deleteMax)
        (B.deleteObjects svc.refused (keys.take deleteMax))

/-- s3.go:1012-1070 -/
def delete (svc : Service) (root : Key) (B : Bucket) (path : Key) :
    Option (Option Error × Bucket) :=
  (listToDelete svc B (s3Path root path) (B.objects.length + 1) 0 none []).map fun
    | none => (some (.pathNotFound path), B)
    | some keys => deleteBatches svc (batches keys.length) 0 keys B

/-- A path the registry uses: `^(/[A-Za-z0-9._-]+)+$`. driver/storagedriver.go:141-146 -/
def pathLetter (c : Char) : Bool := c.isAlphanum || c == '.' || c == '_' || c == '-'

/-- driver/storagedriver.go:141-146 -/
def ValidPath (path : Key) : Prop :=
  ∃ parts : List Key, parts ≠ [] ∧ (∀ part ∈ parts, part ≠ [] ∧ ∀ c ∈ part, pathLetter c = true) ∧
    path = parts.flatMap fun part => '/' :: part

end ContainerRegistry.Model.S3
