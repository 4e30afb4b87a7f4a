import ContainerRegistry.Library.Programs
import ContainerRegistry.Library.RowStore
import ContainerRegistry.Model.RepositoryRows

/-!
# Creating or finding a row

`CreateOrFind` of the stores of blobs, namespaces and repositories, in sessions that interleave with
each other and with the deletion of rows. Each statement is one step, at READ COMMITTED, and commits
by itself outside a transaction.

An insert with `ON CONFLICT DO NOTHING` waits for a transaction that has inserted or deleted a row
with its key and has not ended. Then it returns no row if there is one with the key, and is an
insert otherwise. Media types are never written, so that a blob holds the name of its one.
-/

namespace ContainerRegistry.Model.CreateOrFind

open Library
open Model.Paths (Str validDigest splitDigest)
open Model.RepositoryRows (Namespace Repository maxLength topLevelName)

/-! ## Rows -/

structure Blob where
  mediaType : Str
  digest : Str
  size : ℕ
  createdAt : ℕ
  deriving DecidableEq, Repr

inductive Row where
  | blob (b : Blob)
  | topLevel (n : Namespace)
  | repository (r : Repository)
  deriving DecidableEq, Repr

/-- What the unique constraints are about. The column of a digest is another spelling of it. -/
inductive Key where
  | digest (d : Str)
  | name (name : Str)
  | namespaceID (id : ℕ)
  | path (path : Str)
  | repositoryID (namespaceID id : ℕ)
  deriving DecidableEq, Repr

/-- SOURCE: 20210503150607_create_blobs_table.go:16-17,
20210503145616_create_repositories_table.go:18-21 -/
def schema : Schema Row Key where
  keys
    | .blob b => [.digest b.digest]
    | .topLevel n => [.name n.name, .namespaceID n.id]
    | .repository r => [.path r.path, .repositoryID r.namespaceID r.id]
  parents
    | .repository r =>
      .namespaceID r.namespaceID :: (r.parentID.map (Key.repositoryID r.namespaceID)).toList
    | _ => []

def Row.conflictKey : Row → Key
  | .blob b => .digest b.digest
  | .topLevel n => .name n.name
  | .repository r => .path r.path

def Row.tooLong : Row → Bool
  | .blob _ => false
  | .topLevel n => maxLength < n.name.length
  | .repository r => maxLength < r.name.length || maxLength < r.path.length

structure Stamp where
  id : ℕ
  createdAt : ℕ
  deriving DecidableEq, Repr

def Row.filled : Row → Stamp → Row
  | .blob b, stamp => .blob { b with createdAt := stamp.createdAt }
  | .topLevel n, stamp => .topLevel { n with id := stamp.id, createdAt := stamp.createdAt }
  | .repository r, stamp => .repository { r with id := stamp.id, createdAt := stamp.createdAt }

def Row.blobWith (digest : Str) : Row → Option Blob
  | .blob b => if b.digest = digest then some b else none
  | _ => none

def Row.namespaceWith (name : Str) : Row → Option Namespace
  | .topLevel n => if n.name = name then some n else none
  | _ => none

def Row.repositoryWith (path : Str) : Row → Option Repository
  | .repository r => if r.path = path then some r else none
  | _ => none

/-! ## Statements -/

inductive Query where
  | mapMediaType (mediaType : Str)
  | insert (arg : Row)
  | findBlob (digest : Str)
  | findNamespace (name : Str)
  | findRepository (path : Str)

/-- Why a statement fails: a constraint, an earlier failure of its transaction, or anything that is
not its own doing. -/
inductive QueryErr where
  | violation
  | aborted
  | lost
  deriving DecidableEq, Repr

abbrev Query.Result : Query → Type
  | .mapMediaType _ => Bool
  | .insert _ => Option Stamp
  | .findBlob _ => Option Blob
  | .findNamespace _ => Option Namespace
  | .findRepository _ => Option Repository

abbrev Query.Answer (q : Query) : Type := Except QueryErr q.Result

/-- How a call ends other than with nil. A nil pointer is a panic. -/
inductive Failure where
  | invalidDigest
  | unknownMediaType
  | query (err : QueryErr)
  | nilPointer
  deriving DecidableEq, Repr

abbrev Call (α : Type) := ExceptT Failure (Program Query Query.Answer) α

def statement (q : Query) : Call q.Result :=
  ExceptT.mk (.ask q fun answer => .done (answer.mapError .query))

/-! ## Stores -/

/-- datastore/manifest.go:232-250 -/
def mapMediaType (mediaType : Str) : Call Bool := statement (.mapMediaType mediaType)

/-- digest.go:25-41 -/
def newDigest (d : Str) : Bool :=
  validDigest d && ((splitDigest d).1 = "sha256".toList || (splitDigest d).1 = "sha512".toList)

/-- datastore/blob.go:90-109 -/
def findByDigest (d : Str) : Call (Option Blob) :=
  if newDigest d then statement (.findBlob d) else throw .invalidDigest

/-- What the three calls have in common: the insert, and if it returns no row the find, whose row is
taken without a look at whether there is one. -/
def insertOrFind {α : Type} (arg : Row) (scanned : Stamp → α) (find : Call (Option α)) :
    Call α := do
  let res : Option Stamp ← statement (.insert arg)
  match res with
  | some stamp => return scanned stamp
  | none =>
    match ← find with
    | some tmp => return tmp
    | none => throw .nilPointer

/-- datastore/blob.go:176-208 -/
def blobCreateOrFind (b : Blob) : Call Blob :=
  if newDigest b.digest then do
    if ← mapMediaType b.mediaType then
      insertOrFind (.blob b) (fun stamp => { b with createdAt := stamp.createdAt })
        (findByDigest b.digest)
    else throw .unknownMediaType
  else throw .invalidDigest

/-- namespace.go:73-96 -/
def namespaceCreateOrFind (n : Namespace) : Call Namespace :=
  insertOrFind (.topLevel n) (fun stamp => { n with id := stamp.id, createdAt := stamp.createdAt })
    (statement (.findNamespace n.name))

/-- `repositoryStore.CreateOrFind` once the namespace is known. -/
def repositoryInsertOrFind (r : Repository) : Call Repository :=
  insertOrFind (.repository r)
    (fun stamp => { r with id := stamp.id, createdAt := stamp.createdAt })
    (statement (.findRepository r.path))

/-- datastore/repository.go:743-775 -/
def repositoryCreateOrFind (r : Repository) : Call Repository :=
  if r.namespaceID = 0 then do
    let n ← namespaceCreateOrFind ⟨0, topLevelName r.path, 0⟩
    repositoryInsertOrFind { r with namespaceID := n.id }
  else repositoryInsertOrFind r

inductive Arg where
  | blob (b : Blob)
  | repository (r : Repository)
  deriving DecidableEq, Repr

def Arg.createOrFind : Arg → Call Row
  | .blob b => do return .blob (← blobCreateOrFind b)
  | .repository r => do return .repository (← repositoryCreateOrFind r)

/-! ## Sessions -/

/-- The transaction of a session: none, one that began at a time, or one that has failed and waits
for its end. -/
inductive Tx where
  | none
  | opened (began : ℕ)
  | aborted
  deriving DecidableEq, Repr

structure Session where
  tx : Tx
  call : Option (Program Query Query.Answer (Except Failure Row))

def Session.asks (s : Session) : Option Query :=
  match s.call with
  | some (.ask q _) => some q
  | _ => none

def Session.outcome (s : Session) : Option (Except Failure Row) :=
  match s.call with
  | some (.done res) => some res
  | _ => none

structure State (T : Type) where
  store : Store Row Key T
  mediaTypes : List Str
  namespaceSerial : ℕ
  repositorySerial : ℕ
  now : ℕ
  session : T → Session

/-- A `lose` is a statement that fails for no reason of its own: a deadlock, a cancelled context, a
lost connection. -/
inductive Action (T : Type) where
  | tick
  | begin (t : T)
  | call (t : T) (arg : Arg)
  | go (t : T)
  | lose (t : T)
  | delete (t : T) (keys : List Key)
  | commit (t : T)
  | rollback (t : T)

section Steps

variable {T : Type} [DecidableEq T]

def State.init (rows : List Row) (mediaTypes : List Str) (namespaceSerial repositorySerial : ℕ) :
    State T :=
  ⟨⟨rows, [], fun _ => ⟨[], []⟩⟩, mediaTypes, namespaceSerial, repositorySerial, 0,
    fun _ => ⟨.none, none⟩⟩

variable (σ : State T)

def State.setTx (t : T) (tx : Tx) : State T :=
  { σ with session := Function.update σ.session t { σ.session t with tx := tx } }

def State.setCall (t : T) (call : Program Query Query.Answer (Except Failure Row)) : State T :=
  { σ with session := Function.update σ.session t { σ.session t with call := some call } }

/-- A statement has written: without a transaction that is committed at once. -/
def State.written (t : T) (store : Store Row Key T) : State T :=
  { σ with store := if (σ.session t).tx = .none then store.commit t else store }

/-- A statement has failed, and its transaction with it. -/
def State.abort (t : T) : State T :=
  if (σ.session t).tx = .none then σ
  else { σ.setTx t .aborted with store := σ.store.rollback t }

/-- The defaults of a new row; `now()` is the time the transaction began. -/
def State.stamp (t : T) (arg : Row) : Stamp where
  id := match arg with
    | .blob _ => 0
    | .topLevel _ => σ.namespaceSerial
    | .repository _ => σ.repositorySerial
  createdAt := match (σ.session t).tx with
    | .opened began => began
    | _ => σ.now

def State.advance (arg : Row) : State T :=
  match arg with
  | .blob _ => σ
  | .topLevel _ => { σ with namespaceSerial := σ.namespaceSerial + 1 }
  | .repository _ => { σ with repositorySerial := σ.repositorySerial + 1 }

/-- `INSERT … ON CONFLICT … DO NOTHING`, with `none` while it has to wait. -/
def State.insert (t : T) (arg : Row) : Option (State T × Except QueryErr (Option Stamp)) :=
  let next := σ.advance arg
  if arg.tooLong then some (next.abort t, .error .violation)
  else if (σ.store.view t).any fun r => arg.conflictKey ∈ schema.keys r then
    if σ.store.Free t arg.conflictKey .keyShare then some (next, .ok none) else none
  else
    let stamp := σ.stamp t arg
    match σ.store.write schema t ⟨⟨[arg.filled stamp], []⟩, [], []⟩ with
    | .blocked => none
    | .violation => some (next.abort t, .error .violation)
    | .done store => some (next.written t store, .ok (some stamp))

def State.exec (t : T) (q : Query) : Option (State T × q.Answer) :=
  if (σ.session t).tx = .aborted then some (σ, .error .aborted)
  else match q with
    | .mapMediaType mediaType => some (σ, .ok (σ.mediaTypes.contains mediaType))
    | .insert arg => σ.insert t arg
    | .findBlob digest => some (σ, .ok ((σ.store.view t).findSome? (·.blobWith digest)))
    | .findNamespace name => some (σ, .ok ((σ.store.view t).findSome? (·.namespaceWith name)))
    | .findRepository path => some (σ, .ok ((σ.store.view t).findSome? (·.repositoryWith path)))

/-- The rows that a `DELETE` matches, with those that it cascades to. -/
def State.matching (t : T) (keys : List Key) : List Row :=
  (σ.store.view t).filter fun r => (schema.keys r).any (· ∈ keys)

def step : Action T → Option (State T)
  | .tick => some { σ with now := σ.now + 1 }
  | .begin t =>
    if (σ.session t).asks.isNone ∧ (σ.session t).tx = .none then
      some (σ.setTx t (.opened σ.now))
    else none
  | .call t arg =>
    if (σ.session t).asks.isNone then some (σ.setCall t arg.createOrFind) else none
  | .go t =>
    match (σ.session t).call with
    | some (.ask q next) => (σ.exec t q).map fun res => res.1.setCall t (next res.2)
    | _ => none
  | .lose t =>
    match (σ.session t).call with
    | some (.ask _ next) => some ((σ.abort t).setCall t (next (.error .lost)))
    | _ => none
  | .delete t keys =>
    if (σ.session t).asks.isNone ∧ (σ.session t).tx ≠ .aborted then
      match σ.store.write schema t ⟨⟨[], σ.matching t keys⟩, [], []⟩ with
      | .blocked => none
      | .violation => some (σ.abort t)
      | .done store => some (σ.written t store)
    else none
  | .commit t =>
    if (σ.session t).asks.isNone ∧ (σ.session t).tx ≠ .none then
      some { σ.setTx t .none with store := σ.store.commit t }
    else none
  | .rollback t =>
    if (σ.session t).asks.isNone ∧ (σ.session t).tx ≠ .none then
      some { σ.setTx t .none with store := σ.store.rollback t }
    else none

/-- A call has dereferenced a row that is not there. -/
def State.Panicked (t : T) : Prop := (σ.session t).outcome = some (.error .nilPointer)

instance (σ : State T) (t : T) : Decidable (σ.Panicked t) :=
  inferInstanceAs (Decidable ((σ.session t).outcome = some (.error .nilPointer)))

end Steps

end ContainerRegistry.Model.CreateOrFind
