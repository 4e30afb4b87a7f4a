import ContainerRegistry.Library.QueryStrings
import Mathlib.Data.List.Sort

/-!
# Listing tags and repositories from the database

`GetTags` of `registry/handlers/tags.go` and `GetCatalog` of `registry/handlers/catalog.go` when
metadata is in the database, with the queries of `registry/datastore/repository.go`.

The database compares texts by a collation. Queries are `WHERE`, `ORDER BY` and `LIMIT` over the
rows of a table. Failures are left out.
-/

namespace ContainerRegistry.Model.Listings

open Library.Query

/-! ## The database -/

/-- A total order on texts, by sort keys. The empty text is the least one. -/
structure Collation (κ : Type) [LinearOrder κ] where
  key : Text → κ
  key_injective : Function.Injective key
  nil_lt : ∀ t : Text, t ≠ [] → key [] < key t

structure Repository where
  id : ℕ
  namespaceID : ℕ
  path : Text
  deriving DecidableEq

/-- The columns of a row of `manifests` or `tags` that say where it belongs. -/
structure Owner where
  namespaceID : ℕ
  repositoryID : ℕ
  deriving DecidableEq

structure Tag where
  owner : Owner
  name : Text
  deriving DecidableEq

def Repository.owner (r : Repository) : Owner := ⟨r.namespaceID, r.id⟩

/-- The rows, with the unique constraints of the tables. Names and paths are not empty. -/
structure Database where
  repositories : List Repository
  manifests : List Owner
  tags : List Tag
  path_unique : (repositories.map Repository.path).Nodup
  name_unique : tags.Nodup
  path_ne_nil : ∀ r ∈ repositories, r.path ≠ []
  name_ne_nil : ∀ t ∈ tags, t.name ≠ []

variable {κ : Type} [LinearOrder κ] (c : Collation κ) (db : Database)

def orderBy {β : Type} (column : β → Text) (rows : List β) : List β :=
  rows.insertionSort fun a b => c.key (column a) ≤ c.key (column b)

/-- datastore/repository.go:184-202 -/
def findByPath (path : Text) : Option Repository := db.repositories.find? fun r => r.path = path

/-- datastore/repository.go:406-433 -/
def tagsPaginated (r : Repository) (limit : ℕ) (lastName : Text) : List Tag :=
  (orderBy c Tag.name
    (db.tags.filter fun t => t.owner = r.owner ∧ c.key lastName < c.key t.name)).take limit

/-- datastore/repository.go:438-455 -/
def tagsCountAfterName (r : Repository) (lastName : Text) : ℕ :=
  (db.tags.filter fun t => t.owner = r.owner ∧ c.key lastName < c.key t.name).length

def hasManifest (r : Repository) : Bool := db.manifests.any fun m => m = r.owner

/-- datastore/repository.go:231-261 -/
def findAllPaginated (limit : ℕ) (lastPath : Text) : List Repository :=
  (orderBy c Repository.path
    (db.repositories.filter fun r => hasManifest db r ∧ c.key lastPath < c.key r.path)).take limit

/-- datastore/repository.go:501-522 -/
def countAfterPath (path : Text) : ℕ :=
  (db.repositories.filter fun r => hasManifest db r ∧ c.key path < c.key r.path).length

/-! ## The handlers -/

/-- A page, and whether there are more entries; none if the repository is unknown.
handlers/tags.go:41-75 -/
def dbGetTags (repoPath : Text) (n : ℕ) (last : Text) : Option (List Text × Bool) :=
  (findByPath db repoPath).map fun r =>
    let tt := tagsPaginated c db r n last
    (tt.map Tag.name, tt.getLast?.any fun t => 0 < tagsCountAfterName c db r t.name)

/-- handlers/catalog.go:39-61 -/
def dbGetCatalog (n : ℕ) (last : Text) : List Text × Bool :=
  let rr := findAllPaginated c db n last
  (rr.map Repository.path, rr.getLast?.any fun r => 0 < countAfterPath c db r.path)

/-- handlers/catalog.go:19 -/
def maximumReturnedEntries : ℕ := 100

structure URL where
  path : Text
  rawQuery : Text
  deriving DecidableEq

/-- As the request has it or the default. handlers/tags.go:84-87, handlers/catalog.go:68-71 -/
def maxEntries (q : List (Text × Text)) : ℕ :=
  match atoi (get q (ascii "n")) with
  | none => maximumReturnedEntries
  | some n => if n ≤ 0 then maximumReturnedEntries else n.toNat

/-- The keys of the query are sorted. handlers/catalog.go:121-137 -/
def createLinkEntry (origURL : URL) (maxEntries : ℕ) (lastEntry : Text) : URL :=
  { origURL with rawQuery := encode [(ascii "last", lastEntry), (ascii "n", itoa maxEntries)] }

structure Page where
  entries : List Text
  link : Option URL
  deriving DecidableEq

def page (u : URL) (entries : List Text) (moreEntries : Bool) : Page where
  entries := entries
  link :=
    if moreEntries then
      entries.getLast?.map fun lastEntry =>
        createLinkEntry u (maxEntries (parse u.rawQuery)) lastEntry
    else none

/-- handlers/tags.go:78-137 -/
def getTags (repoPath : Text) (u : URL) : Option Page :=
  let q := parse u.rawQuery
  (dbGetTags c db repoPath (maxEntries q) (get q (ascii "last"))).map fun r => page u r.1 r.2

/-- handlers/catalog.go:63-117 -/
def getCatalog (u : URL) : Option Page :=
  let q := parse u.rawQuery
  let r := dbGetCatalog c db (maxEntries q) (get q (ascii "last"))
  some (page u r.1 r.2)

end ContainerRegistry.Model.Listings
