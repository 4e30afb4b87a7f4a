import ContainerRegistry.Library.Programs
import ContainerRegistry.Model.Paths
import ContainerRegistry.Model.Walk
import Mathlib.Data.List.AList

/-!
# Purging uploads

`PurgeUploads` with the walk that collects the uploads. The callbacks of the walk run in goroutines
and share a map. Each access to the map is under a lock, but the callback is not: it reads the entry
of an upload, changes its copy and sets the entry.

The walk is that of a driver with a given `Listing`, which is the parallel fallback or that of S3;
the sequential walks are some of the schedules.
-/

namespace ContainerRegistry.Model.PurgeUploads

open Library
open Model.Paths (Str)

abbrev Path := List Str

/-! ## Identifiers -/

/-- The sixteen bytes of a `uuid.UUID`, of which `String` is another spelling. -/
abbrev UUID := List ℕ

def hexDigit (c : Char) : Option ℕ :=
  if '0' ≤ c ∧ c ≤ '9' then some (c.toNat - '0'.toNat)
  else if 'a' ≤ c ∧ c ≤ 'f' then some (c.toNat - 'a'.toNat + 10)
  else if 'A' ≤ c ∧ c ≤ 'F' then some (c.toNat - 'A'.toNat + 10)
  else none

/-- At most so many bytes in hexadecimal, and what is left. A digit alone is an error. -/
def scanHex : ℕ → Str → Option (List ℕ × Str)
  | 0, s => some ([], s)
  | _ + 1, [] => some ([], [])
  | n + 1, c :: s =>
    match hexDigit c, s with
    | none, _ => some ([], c :: s)
    | some _, [] => none
    | some a, d :: s =>
      match hexDigit d with
      | none => none
      | some b => (scanHex n s).map fun scanned => ((16 * a + b) :: scanned.1, scanned.2)

/-- One `%x` of the format, with blanks before it, into a field of that many bytes. -/
def scanField (size : ℕ) (s : Str) : Option (List ℕ × Str) :=
  match scanHex size (s.dropWhile fun c => c = ' ' ∨ c = '\t') with
  | none => none
  | some (bytes, rest) =>
    if bytes = [] then none else some (bytes ++ List.replicate (size - bytes.length) 0, rest)

def scanDash : Str → Option Str
  | '-' :: s => some s
  | _ => none

/-- `uuid.Parse`. `Sscanf` does not look at what follows the last field. uuid.go:83-104 -/
def parseUUID (s : Str) : Option UUID :=
  if s.length ≠ 36 then none
  else do
    let (a, s) ← scanField 4 s
    let (b, s) ← scanField 2 (← scanDash s)
    let (c, s) ← scanField 2 (← scanDash s)
    let (d, s) ← scanField 2 (← scanDash s)
    let (e, _) ← scanField 6 (← scanDash s)
    return a ++ b ++ c ++ d ++ e

/-- The loop of `uuidFromPath`, over the components from the last to the first. -/
def uuidFromComponents : List Str → Bool → Option (UUID × Bool)
  | [], _ => none
  | c :: cs, last =>
    match parseUUID c with
    | some u => some (u, last)
    | none => uuidFromComponents cs false

/-- `uuidFromPath`: the identifier, and whether it is the last component. purgeuploads.go:146-157 -/
def uuidFromPath (path : Path) : Option (UUID × Bool) := uuidFromComponents path.reverse true

/-! ## The callback -/

structure UploadData where
  containingDir : Path
  startedAt : ℕ
  deriving DecidableEq, Repr

/-- What a callback does: the accesses to the map, the clock, the driver, and the channel of
errors. -/
inductive Op where
  | get (uuid : UUID)
  | now
  | getContent (path : Path)
  | set (uuid : UUID) (data : UploadData)
  | report (path : Path)

abbrev Op.Answer (κ : Type) : Op → Type
  | .get _ => Option UploadData
  | .now => ℕ
  | .getContent _ => Option κ
  | .set _ _ => Unit
  | .report _ => Unit

section Callbacks

variable {κ : Type}

/-- A callback. It returns whether it returns `ErrSkipDir`. -/
abbrev Callback (κ : Type) := Program Op (Op.Answer κ)

def perform (op : Op) : Callback κ (op.Answer κ) := .ask op .done

/-- `10000 * time.Hour`, in seconds. -/
def farAway : ℕ := 36000000

/-- purgeuploads.go:23-29 -/
def newUploadData : Callback κ UploadData := do
  let now : ℕ ← perform .now
  return ⟨[], now + farAway⟩

def file (path : Path) : Str := path.getLastD []

def startedat : Str := "startedat".toList

def reserved (path : Path) : Bool := (file path).head? = some '_' && file path ≠ "_uploads".toList

variable (parseTime : κ → Option ℕ)

/-- `readStartedAtFile`, with `time.Parse` as a parameter. purgeuploads.go:160-171 -/
def readStartedAtFile (path : Path) : Callback κ (Option ℕ) := do
  let content : Option κ ← perform (.getContent path)
  return content.bind parseTime

/-- purgeuploads.go:124-130 -/
def scanStartedAt (path : Path) (ud : UploadData) : Callback κ UploadData :=
  if file path = startedat then do
    match ← readStartedAtFile parseTime path with
    | some t => return { ud with startedAt := t }
    | none => do
      let _ : Unit ← perform (.report path)
      return ud
  else return ud

/-- The entry of the upload, or a new one. purgeuploads.go:117-120 -/
def getOrNew (uuid : UUID) : Callback κ UploadData := do
  let found : Option UploadData ← perform (.get uuid)
  match found with
  | some ud => return ud
  | none => newUploadData

/-- purgeuploads.go:104-134 -/
def callback (path : Path) (isDir : Bool) : Callback κ Bool :=
  if reserved path && isDir then return true
  else match uuidFromPath path with
    | none => return false
    | some (uuid, isContainingDir) => do
      let ud ← getOrNew uuid
      let ud ← scanStartedAt parseTime path
        (if isContainingDir then { ud with containingDir := path } else ud)
      let _ : Unit ← perform (.set uuid ud)
      return false

end Callbacks

/-! ## The walk -/

/-- What a goroutine of the walk is about to do. `reading` is the entry that the callback has read
and has not set; no step depends on it. -/
inductive Goroutine (κ : Type) where
  | list (path : Path) (page : ℕ)
  | visit (path : Path)
  | run (path : Path) (reading : Option UUID) (rest : Callback κ Bool)

def Goroutine.reading {κ : Type} : Goroutine κ → Option UUID
  | .run _ reading _ => reading
  | _ => none

structure State (κ : Type) where
  goroutines : List (Goroutine κ)
  members : AList fun _ : UUID => UploadData
  errors : List Path
  walkErrors : List (StorageError Str Empty)
  closed : Bool
  now : ℕ

/-- The turns of the scheduler: a goroutine goes on, the first error closes the walk, time goes
by. -/
inductive Action where
  | go (i : ℕ)
  | close
  | tick
  deriving DecidableEq, Repr

def root : Path := ["docker".toList, "registry".toList, "v2".toList, "repositories".toList]

def State.init {κ : Type} (now : ℕ) : State κ := ⟨[.list root 0], ∅, [], [], false, now⟩

section Steps

variable {κ : Type} (ℓ : Listing Str κ) (T : ObjectTree Str κ) (fails : Request Str → Bool)
  (parseTime : κ → Option ℕ)

/-- A goroutine has done its turn; it leaves others behind, or itself. -/
def State.after (σ : State κ) (i : ℕ) (spawned : List (Goroutine κ)) : State κ :=
  { σ with goroutines := spawned ++ σ.goroutines.eraseIdx i }

def State.failed (σ : State κ) (i : ℕ) (err : StorageError Str Empty) : State κ :=
  { σ.after i [] with walkErrors := σ.walkErrors ++ [err] }

/-- One access or request of a callback, with the state it leaves and what it has read by then. -/
def State.exec (σ : State κ) (reading : Option UUID) (op : Op) :
    State κ × Option UUID × op.Answer κ :=
  match op with
  | .get uuid => (σ, some uuid, σ.members.lookup uuid)
  | .now => (σ, reading, σ.now)
  | .getContent path => (σ, reading, if fails (.read path) then none else T.read path)
  | .set uuid data => ({ σ with members := σ.members.insert uuid data }, none, ())
  | .report path => ({ σ with errors := σ.errors ++ [path] }, reading, ())

/-- The turn of the goroutine `i`. walk.go:110-181, s3.go:1417-1496 -/
def State.go (σ : State κ) (i : ℕ) : Goroutine κ → State κ
  | .list path page =>
    if σ.closed then σ.after i []
    else if fails (.list path page) then σ.failed i (.failed (.list path page))
    else if ℓ.strict && !T.isDir path then σ.failed i (.pathNotFound path)
    else σ.after i (((ℓ.pages T path)[page]?.getD []).map (fun c => .visit (path ++ [c])) ++
      if page + 1 < (ℓ.pages T path).length then [.list path (page + 1)] else [])
  | .visit path =>
    if ℓ.stats && fails (.stat path) then σ.failed i (.failed (.stat path))
    else if ℓ.stats && !T.occupied path then σ.after i []
    else σ.after i [.run path none (callback parseTime path (T.isDir path))]
  | .run path _ (.done skip) =>
    σ.after i (if !skip && T.isDir path then [.list path 0] else [])
  | .run path reading (.ask op next) =>
    let res := σ.exec T fails reading op
    res.1.after i [.run path res.2.1 (next res.2.2)]

def step (σ : State κ) : Action → Option (State κ)
  | .go i => σ.goroutines[i]?.map (σ.go ℓ T fails parseTime i)
  | .close => if σ.walkErrors.isEmpty then none else some { σ with closed := true }
  | .tick => some { σ with now := σ.now + 1 }

end Steps

/-- The errors of a purge: of the files that were not read, of the walk, and of the directories that
were not deleted. -/
inductive Err where
  | startedAt (path : Path)
  | walk (errs : List (StorageError Str Empty))
  | delete (path : Path)

/-- `getOutstandingUploads`, once no goroutine is left. purgeuploads.go:86-141 -/
def State.outstanding {κ : Type} (σ : State κ) : List UploadData × List Err :=
  (σ.members.entries.map (·.2),
    σ.errors.map .startedAt ++ if σ.walkErrors.isEmpty then [] else [.walk σ.walkErrors])

/-- The loop of `PurgeUploads` over the uploads, which come in any order: what is deleted and the
errors. `undeletable` are the directories whose deletion fails. purgeuploads.go:61-77 -/
def purgeUploads (undeletable : Path → Bool) (olderThan : ℕ) (actuallyDelete : Bool) :
    List UploadData → List Err → List Path × List Err
  | [], errs => ([], errs)
  | ud :: uds, errs =>
    if ud.startedAt < olderThan then
      if actuallyDelete && undeletable ud.containingDir then
        purgeUploads undeletable olderThan actuallyDelete uds (errs ++ [.delete ud.containingDir])
      else
        let rest := purgeUploads undeletable olderThan actuallyDelete uds errs
        (ud.containingDir :: rest.1, rest.2)
    else purgeUploads undeletable olderThan actuallyDelete uds errs

end ContainerRegistry.Model.PurgeUploads
