import ContainerRegistry.Library.Transactions
import ContainerRegistry.Model.Program

/-!
# One review, with everything that can go wrong in it

`processTask` of the two garbage collection workers, statement by statement, on the one transaction
it begins. Every statement and the storage delete may fail (`Faults`). A statement that fails aborts
the transaction.

`κ` stands for what a review is about: a manifest of a repository or the digest of a blob. Times are
in microseconds.
-/

namespace ContainerRegistry.Model.Reviews

open Library (Tx)

/-- What a review queue says about a manifest or a blob. -/
structure Review where
  reviewAfter : Int
  reviewCount : Int
  deriving DecidableEq, Repr

structure GCTask (κ : Type) where
  key : κ
  reviewAfter : Int
  reviewCount : Int

/-- The tables a review reads and writes: the queue, the manifests or blobs, and those of them that
something refers to. -/
structure Tables (κ : Type) where
  queue : κ → Option Review
  rows : List κ
  referenced : List κ

inductive Op where
  | next
  | isDangling
  | removeBlob
  | findByDigest
  | delete
  | deleteTask
  | postpone
  | commit
  deriving DecidableEq, Repr

/-- What goes wrong outside: a context runs out, or anything else. -/
inductive Fault where
  | deadlineExceeded
  | failure
  deriving DecidableEq, Repr

inductive Cause where
  | fault (x : Fault)
  | transactionAborted
  | pathNotFound
  | notFound
  | taskNotFound
  deriving DecidableEq, Repr

structure Error where
  op : Op
  cause : Cause
  deriving DecidableEq, Repr

abbrev Faults := Op → Option Fault

structure World (κ : Type) where
  tx : Tx (Tables κ)
  files : List κ

variable {κ : Type}

def World.start (db : Tables κ) (files : List κ) : World κ := ⟨.start db, files⟩

def statement {α : Type} (f : Faults) (op : Op) (q : Tables κ → Except Cause α × Tables κ) :
    StateM (World κ) (Except Cause α) := fun w =>
  let r := w.tx.exec .transactionAborted ((f op).map .fault) q
  (r.1, { w with tx := r.2 })

variable (f : Faults)

def commit : StateM (World κ) (Except Cause Unit) := fun w =>
  let r := w.tx.commit .transactionAborted ((f .commit).map .fault)
  (r.1, { w with tx := r.2 })

section Stores

variable [DecidableEq κ]

def Tables.enqueue (db : Tables κ) (k : κ) (r : Option Review) : Tables κ :=
  { db with queue := Function.update db.queue k r }

def Tables.remove (db : Tables κ) (k : κ) : Tables κ := { db with rows := db.rows.filter (· ≠ k) }

/-- `Next`. `pick` is the first row that no other worker has locked.
datastore/gcmanifesttask.go:166-196, datastore/gcblobtask.go:116-146 -/
def next (now : Int) (pick : Option κ) : StateM (World κ) (Except Cause (Option (GCTask κ))) :=
  statement f .next fun db =>
    (.ok (pick.bind fun k =>
      ((db.queue k).filter fun r => r.reviewAfter < now).map fun r =>
        ⟨k, r.reviewAfter, r.reviewCount⟩), db)

variable (t : GCTask κ)

/-- datastore/gcmanifesttask.go:232-259, datastore/gcblobtask.go:209-239 -/
def isDangling : StateM (World κ) (Except Cause Bool) :=
  statement f .isDangling fun db => (.ok (t.key ∉ db.referenced), db)

/-- The queue row `Postpone` leaves. datastore/gcmanifesttask.go:198-229,
datastore/gcblobtask.go:148-182 -/
def Review.postpone (r : Review) (d : Int) : Review := ⟨r.reviewAfter + d / 1000, r.reviewCount + 1⟩

def postpone (d : Int) : StateM (World κ) (Except Cause Unit) :=
  statement f .postpone fun db =>
    if (db.queue t.key).isSome then
      (.ok (), db.enqueue t.key (some (Review.postpone ⟨t.reviewAfter, t.reviewCount⟩ d)))
    else (.error .taskNotFound, db)

def deleteTask : StateM (World κ) (Except Cause Unit) :=
  statement f .deleteTask fun db =>
    if (db.queue t.key).isSome then (.ok (), db.enqueue t.key none)
    else (.error .taskNotFound, db)

/-- `manifestStore.Delete`, which cascades to the queue. datastore/manifest.go:400-425 -/
def deleteManifestRow : StateM (World κ) (Except Cause Bool) :=
  statement f .delete fun db =>
    if t.key ∈ db.rows then (.ok true, (db.remove t.key).enqueue t.key none)
    else (.ok false, db)

/-- `blobStore.FindByDigest`, as a test. -/
def findByDigest : StateM (World κ) (Except Cause Bool) :=
  statement f .findByDigest fun db => (.ok (t.key ∈ db.rows), db)

/-- datastore/blob.go:211-233 -/
def deleteBlobRow : StateM (World κ) (Except Cause Unit) :=
  statement f .delete fun db =>
    if t.key ∈ db.rows then (.ok (), db.remove t.key)
    else (.error .notFound, db)

/-- `vacuum.RemoveBlob`. Nothing here depends on whether a delete that fails leaves the file. -/
def removeBlob : StateM (World κ) (Except Cause Unit) := fun w =>
  match f .removeBlob with
  | some x => (.error (.fault x), w)
  | none =>
    if t.key ∈ w.files then (.ok (), { w with files := w.files.filter (· ≠ t.key) })
    else (.error .pathNotFound, w)

/-! ## The workers -/

/-- `postponeTaskAndCommit`, the same in both workers. manifestworker.go:171-184,
blobworker.go:225-238 -/
def postponeTaskAndCommit : StateM (World κ) (List Error) := do
  match ← postpone f t (exponentialBackoff t.reviewCount) with
  | .error e => return [⟨.postpone, e⟩]
  | .ok () =>
    match ← commit f with
    | .error e => return [⟨.commit, e⟩]
    | .ok () => return []

/-- What both workers do about an error: after a deadline the connection is closed, otherwise the
review is postponed. -/
def giveUp (op : Op) (cause : Cause) : StateM (World κ) (List Error) := do
  if cause = .fault .deadlineExceeded then return [⟨op, cause⟩]
  else return ⟨op, cause⟩ :: (← postponeTaskAndCommit f t)

def finish : StateM (World κ) (Bool × List Error) := do
  match ← commit f with
  | .error e => return (true, [⟨.commit, e⟩])
  | .ok () => return (true, [])

def dropTask : StateM (World κ) (Bool × List Error) := do
  match ← deleteTask f t with
  | .error e => return (true, [⟨.deleteTask, e⟩])
  | .ok () => finish f

/-- `ManifestWorker.deleteManifest`. That the manifest is not there is only logged.
manifestworker.go:140-169 -/
def deleteManifest : StateM (World κ) (List Error) := do
  match ← deleteManifestRow f t with
  | .error e => giveUp f t .delete e
  | .ok _ => return []

/-- The second half of `BlobWorker.deleteBlob`. blobworker.go:203-222 -/
def deleteBlobFromDatabase : StateM (World κ) (List Error) := do
  match ← deleteBlobRow f t with
  | .error .notFound => return []
  | .error e => giveUp f t .delete e
  | .ok () => return []

/-- `BlobWorker.deleteBlob`. An error of `RemoveBlob` is postponed whatever it is, a deadline
included; one of `FindByDigest` is logged. blobworker.go:160-222 -/
def deleteBlob : StateM (World κ) (List Error) := do
  match ← removeBlob f t with
  | .error .pathNotFound => deleteBlobFromDatabase f t
  | .error e => return ⟨.removeBlob, e⟩ :: (← postponeTaskAndCommit f t)
  | .ok () =>
    match ← findByDigest f t with
    | .ok false => return []
    | _ => deleteBlobFromDatabase f t

inductive Worker where
  | manifest
  | blob
  deriving DecidableEq, Repr

/-- What a worker does with a task that is dangling. A manifest takes its task with it. -/
def Worker.collect (k : Worker) (f : Faults) (t : GCTask κ) :
    StateM (World κ) (Bool × List Error) := do
  match k with
  | .manifest =>
    match ← deleteManifest f t with
    | [] => finish f
    | errs => return (true, errs)
  | .blob =>
    match ← deleteBlob f t with
    | [] => dropTask f t
    | errs => return (true, errs)

/-- manifestworker.go:102-138, blobworker.go:124-158 -/
def Worker.review (k : Worker) (f : Faults) (t : GCTask κ) :
    StateM (World κ) (Bool × List Error) := do
  match ← isDangling f t with
  | .error e => return (true, ← giveUp f t .isDangling e)
  | .ok true => k.collect f t
  | .ok false => dropTask f t

/-- `processTask`: whether there was a task, and the errors it returns as one.
manifestworker.go:74-138, blobworker.go:97-158 -/
def Worker.processTask (k : Worker) (f : Faults) (now : Int) (pick : Option κ) :
    StateM (World κ) (Bool × List Error) := do
  match ← next f now pick with
  | .error e => return (false, [⟨.next, e⟩])
  | .ok none => return (false, [])
  | .ok (some t) => k.review f t

end Stores

end ContainerRegistry.Model.Reviews
