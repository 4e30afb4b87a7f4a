import ContainerRegistry.Model.Paths

/-!
# Repositories and their parents

`CreateByPath` and `CreateOrFindByPath` of the repository store, with the tables `repositories` and
`top_level_namespaces`. No transaction is around them. Ids come from the sequence of the table,
which also an insert that conflicts or fails moves on.

Paths are strings, split at slashes; `filepath.Clean` is `CleanPaths.clean`.
-/

namespace ContainerRegistry.Model.RepositoryRows

open Library
open Model.Paths (Str)

structure Namespace where
  id : ℕ
  name : Str
  createdAt : ℕ
  deriving DecidableEq, Repr

structure Repository where
  id : ℕ
  namespaceID : ℕ
  name : Str
  path : Str
  parentID : Option ℕ
  createdAt : ℕ
  deriving DecidableEq, Repr

structure Tables where
  namespaces : List Namespace
  repositories : List Repository
  namespaceSerial : ℕ
  repositorySerial : ℕ

def Tables.empty : Tables := ⟨[], [], 1, 1⟩

/-- The errors. A row that an insert conflicts with and that is then not found would be a nil
pointer. -/
inductive Err where
  | checkViolation
  | uniqueViolation
  | foreignKeyViolation
  | nilPointer
  deriving DecidableEq, Repr

/-- A call of a store: it fails or not, and changes the tables either way. -/
abbrev Query (α : Type) := ExceptT Err (StateM Tables) α

/-- `char_length(…) <= 255`. -/
def maxLength : ℕ := 255

/-! ## Statements -/

/-- `INSERT INTO top_level_namespaces … ON CONFLICT (name) DO NOTHING`: the new row, or none if
there is a conflict. namespace.go:73-83 -/
def insertNamespace (now : ℕ) (name : Str) : Query (Option Namespace) := fun db =>
  let next := { db with namespaceSerial := db.namespaceSerial + 1 }
  if maxLength < name.length then (.error .checkViolation, next)
  else if db.namespaces.any (·.name = name) then (.ok none, next)
  else
    let n : Namespace := ⟨db.namespaceSerial, name, now⟩
    (.ok (some n), { next with namespaces := n :: db.namespaces })

def findNamespace (name : Str) : Query (Option Namespace) := fun db =>
  (.ok (db.namespaces.find? (·.name = name)), db)

/-- namespace.go:73-96 -/
def createOrFindNamespace (now : ℕ) (name : Str) : Query Namespace := do
  match ← insertNamespace now name with
  | some n => return n
  | none =>
    match ← findNamespace name with
    | some n => return n
    | none => throw .nilPointer

/-- The foreign keys of a repository hold.
SOURCE: 20210503145616_create_repositories_table.go:19-20 -/
def Tables.admits (db : Tables) (r : Repository) : Bool :=
  db.namespaces.any (·.id = r.namespaceID) && r.parentID.all fun parent =>
    db.repositories.any fun q => q.namespaceID = r.namespaceID ∧ q.id = parent

/-- `INSERT INTO repositories … ON CONFLICT (path) DO NOTHING`. datastore/repository.go:756-764 -/
def insertRepository (now : ℕ) (r : Repository) : Query (Option Repository) := fun db =>
  let next := { db with repositorySerial := db.repositorySerial + 1 }
  if maxLength < r.name.length ∨ maxLength < r.path.length then (.error .checkViolation, next)
  else if db.repositories.any (·.path = r.path) then (.ok none, next)
  else
    let row := { r with id := db.repositorySerial, createdAt := now }
    if db.admits row then (.ok (some row), { next with repositories := row :: db.repositories })
    else (.error .foreignKeyViolation, next)

def findByPath (path : Str) : Query (Option Repository) := fun db =>
  (.ok (db.repositories.find? (·.path = path)), db)

/-- `repositoryStore.Create`, where a conflict is an error. datastore/repository.go:702-716 -/
def create (now : ℕ) (r : Repository) : Query Repository := do
  match ← insertRepository now r with
  | some row => return row
  | none => throw .uniqueViolation

def topLevelName (path : Str) : Str := (path.splitOn '/').headD []

/-- datastore/repository.go:743-775 -/
def createOrFind (now : ℕ) (r : Repository) : Query Repository := do
  let r ← if r.namespaceID = 0 then do
      let n ← createOrFindNamespace now (topLevelName r.path)
      pure { r with namespaceID := n.id }
    else pure r
  match ← insertRepository now r with
  | some row => return row
  | none =>
    match ← findByPath r.path with
    | some row => return row
    | none => throw .nilPointer

/-- datastore/repository.go:777-779 -/
def splitRepositoryPath (path : Str) : List Str := (CleanPaths.clean '/' '.' path).splitOn '/'

/-- datastore/repository.go:781-793 -/
def repositoryParentPaths (path : Str) : List Str :=
  let names := (splitRepositoryPath path).dropLast
  (List.range names.length).map fun i => ['/'].intercalate (names.take (i + 1))

/-- datastore/repository.go:795-799 -/
def repositoryName (path : Str) : Str := (splitRepositoryPath path).getLastD []

/-! ## Calls -/

/-- The loop of `createOrFindParentByPath`: `parent` is the repository of the round before.
datastore/repository.go:804-834 -/
def createOrFindParents (now : ℕ) (n : Namespace) :
    List Str → Option Repository → Query (Option Repository)
  | [], parent => return parent
  | path :: paths, parent => do
    let currParentID := (parent.map (·.id)).getD 0
    let r ← createOrFind now
      ⟨0, n.id, repositoryName path, path, if 0 < currParentID then some currParentID else none, 0⟩
    createOrFindParents now n paths (some r)

/-- What `CreateByPath` and `CreateOrFindByPath` have in common: everything but the last insert.
datastore/repository.go:838-860, 864-884 -/
def byPath (leaf : Repository → Query Repository) (now : ℕ) (path : Str) : Query Repository := do
  let n ← createOrFindNamespace now (topLevelName path)
  let p ← createOrFindParents now n (repositoryParentPaths path) none
  leaf ⟨0, n.id, repositoryName path, path, p.map (·.id), 0⟩

def createByPath (now : ℕ) (path : Str) : Query Repository := byPath (create now) now path

def createOrFindByPath (now : ℕ) (path : Str) : Query Repository :=
  byPath (createOrFind now) now path

inductive Call where
  | createByPath (path : Str)
  | createOrFindByPath (path : Str)
  deriving DecidableEq, Repr

def Call.path : Call → Str
  | .createByPath path | .createOrFindByPath path => path

def Call.perform (now : ℕ) : Call → Query Repository
  | .createByPath path => RepositoryRows.createByPath now path
  | .createOrFindByPath path => RepositoryRows.createOrFindByPath now path

def performAll (calls : List (ℕ × Call)) (db : Tables) : Tables :=
  calls.foldl (fun db c => (c.2.perform c.1 db).2) db

end ContainerRegistry.Model.RepositoryRows
