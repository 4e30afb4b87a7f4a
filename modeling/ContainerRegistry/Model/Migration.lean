import ContainerRegistry.Library.Runs
import ContainerRegistry.Model.Paths

/-!
# Routing of requests while repositories are migrated

`repository.Exists` of `registry/storage/registry.go`, and `shouldMigrate` and the dispatcher of
`registry/handlers/app.go`.

A handler is a list of accesses, which go to the stores of the context the dispatcher has prepared.
A path is found when there is an entry at the path or below it. The two roots are different ones.
-/

namespace ContainerRegistry.Model.Migrations

open Library Model.Paths

/-! ## Storage -/

/-- A name that `reference.WithName` accepts. -/
structure Name where
  text : Str
  valid : text ∈ nameRegexp.matches'
  deriving DecidableEq

inductive Dir where
  | layers
  | manifests
  | uploads
  deriving DecidableEq

def Dir.text : Dir → Str
  | .layers => layersDir
  | .manifests => manifestsDir
  | .uploads => uploadsDir

/-- A file in a directory of a repository, or the directory itself. -/
structure Item where
  dir : Dir
  rest : List Str
  proper : ∀ c ∈ rest, CleanPaths.Proper '/' '.' c
  deriving DecidableEq

structure Entry where
  name : Name
  item : Item
  deriving DecidableEq

def Entry.path (e : Entry) : Str :=
  join (repoPrefix ++ e.name.text :: e.item.dir.text :: e.item.rest)

inductive StatError where
  | pathNotFound
  | other
  deriving DecidableEq

/-- `Stat` of a storage driver; `fault` is a transient failure. -/
def stat (entries : List Entry) (fault : Bool) (path : Str) : Except StatError Unit :=
  if fault then .error .other
  else if entries.any fun e => e.path = path ∨ path ++ ['/'] <+: e.path then .ok ()
  else .error .pathNotFound

/-! ## The decision -/

inductive Error where
  | noPath
  | storage
  /-- "unable to determine if repository exists: %w" -/
  | existence (e : Error)
  /-- "determining whether repository is eligible for migration: %v" -/
  | eligibility (e : Error)
  /-- "invalid database and migration configuration" -/
  | configuration
  deriving DecidableEq

/-- storage/registry.go:401-416 -/
def repositoryExists (entries : List Entry) (fault : Bool) (name : Name) : Except Error Bool :=
  match pathFor (.repositoryRoot name.text) with
  | none => .error .noPath
  | some p =>
    match stat entries fault p with
    | .ok _ => .ok true
    | .error .pathNotFound => .ok false
    | .error .other => .error .storage

/-- configuration.go:401-414 -/
structure Config where
  databaseEnabled : Bool
  migrationEnabled : Bool
  disableMirrorFS : Bool
  deriving DecidableEq

/-- app.go:491-516 -/
def shouldMigrate (cfg : Config) (old : List Entry) (fault : Bool) (name : Name) :
    Except Error Bool :=
  if !(cfg.databaseEnabled && cfg.migrationEnabled) then .ok false
  else
    match repositoryExists old fault name with
    | .error e => .error (.existence e)
    | .ok found => .ok !found

inductive Root where
  | old
  | migration
  deriving DecidableEq

/-- handlers/context.go:19-45 -/
structure Context where
  useDatabase : Bool
  writeFSMetadata : Bool
  repository : Root
  errors : List Error
  deriving DecidableEq

/-- The context of a request for a repository. An error of `shouldMigrate` is recorded, and the
request goes on with a repository that is not migrated. app.go:976-1034 -/
def prepare (cfg : Config) (old : List Entry) (fault : Bool) (name : Name) : Context :=
  let decision := shouldMigrate cfg old fault name
  let migrateRepo := decision.toOption.getD false
  let context : Context :=
    { useDatabase := false
      writeFSMetadata := !cfg.disableMirrorFS
      repository := .old
      errors := match decision with
        | .ok _ => []
        | .error e => [.eligibility e] }
  if migrateRepo then { context with repository := .migration, useDatabase := true }
  else if !cfg.migrationEnabled && cfg.databaseEnabled then { context with useDatabase := true }
  else if (cfg.migrationEnabled && !migrateRepo) || !cfg.databaseEnabled then
    { context with useDatabase := false, writeFSMetadata := true }
  else { context with errors := context.errors ++ [.configuration] }

/-! ## Handlers -/

inductive Store where
  | root (r : Root)
  | database
  deriving DecidableEq

inductive Access where
  | readMetadata
  | readBlob
  | putMetadata (item : Item)
  | removeMetadata (item : Item)
  | putUpload (item : Item)
  | removeUpload (item : Item)
  /-- The blob of a finished upload becomes one of the repository. -/
  | linkBlob (item : Item)
  /-- A blob of another repository does. -/
  | mountBlob (item : Item)
  deriving DecidableEq

/-- The stores an access goes to. handlers/manifests.go:264-270, 535-590, 1170-1205;
handlers/tags.go:92-100, 241-255; handlers/blob.go:99-121, 199-222; blobupload.go:112-135, 301-307;
blobwriter.go:81-85; linkedblobstore.go:288-323 -/
def Access.stores (cfg : Config) (context : Context) : Access → List Store
  | .readMetadata => [if context.useDatabase then .database else .root context.repository]
  | .readBlob | .putUpload _ | .removeUpload _ => [.root context.repository]
  | .putMetadata _ | .removeMetadata _ =>
    (if context.writeFSMetadata then [.root context.repository] else []) ++
      if context.useDatabase then [.database] else []
  | .linkBlob _ =>
    (if cfg.disableMirrorFS then [] else [.root context.repository]) ++
      if context.useDatabase then [.database] else []
  | .mountBlob _ =>
    .root context.repository :: if context.useDatabase then [.database] else []

def Access.change (name : Name) : Access → List Entry → List Entry
  | .readMetadata, entries | .readBlob, entries => entries
  | .putMetadata item, entries | .putUpload item, entries | .linkBlob item, entries
  | .mountBlob item, entries => ⟨name, item⟩ :: entries
  | .removeMetadata item, entries | .removeUpload item, entries =>
    entries.filter fun e => e ≠ ⟨name, item⟩

/-- The two sides: the old root, and the database with the root for migrated repositories. -/
inductive Side where
  | filesystem
  | database
  deriving DecidableEq

def Store.side : Store → Side
  | .root .old => .filesystem
  | .root .migration | .database => .database

def Side.stores : Side → List Store
  | .filesystem => [.root .old]
  | .database => [.root .migration, .database]

def Side.other : Side → Side
  | .filesystem => .database
  | .database => .filesystem

structure Event where
  name : Name
  store : Store
  decided : Bool
  /-- The repository had content on the other side. -/
  split : Bool
  deriving DecidableEq

structure World where
  entries : Store → List Entry
  log : List Event

def World.hasContent (w : World) (side : Side) (name : Name) : Bool :=
  side.stores.any fun s => (w.entries s).any fun e => e.name = name

def World.touch (w : World) (name : Name) (decided : Bool) (a : Access) (s : Store) : World where
  entries := fun s' => if s' = s then a.change name (w.entries s) else w.entries s'
  log := ⟨name, s, decided, w.hasContent s.side.other name⟩ :: w.log

structure Request where
  name : Name
  fault : Bool
  accesses : List Access
  deriving DecidableEq

def Request.touches (cfg : Config) (context : Context) (r : Request) : List (Access × Store) :=
  r.accesses.flatMap fun a => (a.stores cfg context).map fun s => (a, s)

/-- The handler is called whatever is in `context.Errors`. app.go:912-1080 -/
def dispatch (cfg : Config) (w : World) (r : Request) : World :=
  let context := prepare cfg (w.entries (.root .old)) r.fault r.name
  (r.touches cfg context).foldl (fun w t => w.touch r.name context.errors.isEmpty t.1 t.2) w

def step (cfg : Config) (w : World) (r : Request) : Option World := some (dispatch cfg w r)

/-- The start of a migration: there is only the old root. -/
def start (old : List Entry) : World where
  entries := fun s => if s = .root .old then old else []
  log := []

end ContainerRegistry.Model.Migrations
