import Mathlib.Data.List.Basic

/-!
# The plain and the cached tag store

`tagstore.go` and `cachedtagstore.go` over the tags of one repository, which do not change. Every
call sends storage requests, numbered from zero, and `fails` says which of them fail. `sync.Once`
lets every caller wait for the one that primes, so calls are one after the other.
-/

namespace ContainerRegistry.Model.TagStores

/-- What is stored of a repository's tags: the names in its tags directory, if there is one, and
what the current link of a tag is, of which some do not parse. -/
structure Tags (T D : Type) where
  listing : Option (List T)
  link : T → Option (Option D)

inductive Err where
  | storage
  | pathNotFound
  | repositoryUnknown
  | tagUnknown
  | invalidLink
  deriving DecidableEq, Repr

variable {T D : Type} [DecidableEq D] (S : Tags T D) (fails : ℕ → Bool)

/-- blobstore.go:146-158 -/
def readlink (n : ℕ) (t : T) : Except Err D :=
  if fails n then .error .storage
  else match S.link t with
    | none => .error .pathNotFound
    | some none => .error .invalidLink
    | some (some d) => .ok d

/-! ## The plain store -/

/-- tagstore.go:25-51 -/
def all : Except Err (List T) :=
  if fails 0 then .error .storage
  else match S.listing with
    | none => .error .repositoryUnknown
    | some tags => .ok tags

/-- tagstore.go:184-204 -/
def lookupLoop (digest : D) (n : ℕ) : List T → Except Err (List T)
  | [] => .ok []
  | t :: ts =>
    match readlink S fails n t with
    | .error .pathNotFound => lookupLoop digest (n + 1) ts
    | .error e => .error e
    | .ok d => (lookupLoop digest (n + 1) ts).map fun tags => if d = digest then t :: tags else tags

/-- tagstore.go:170-205 -/
def lookup (digest : D) : Except Err (List T) :=
  match all S fails with
  | .error .repositoryUnknown => .ok []
  | .error e => .error e
  | .ok tags => lookupLoop S fails digest 1 tags

/-- tagstore.go:96-117 -/
def get (t : T) : Except Err D :=
  match readlink S fails 0 t with
  | .error .pathNotFound => .error .tagUnknown
  | r => r

/-! ## The cached store -/

/-- cachedtagstore.go:19-25 -/
structure Cache (T D : Type) where
  once : Bool
  tags : List (T × D)

/-- cachedtagstore.go:28-35 -/
def newCache : Cache T D := ⟨false, []⟩

/-- The loop of `Prime`: the entries it adds and its error. cachedtagstore.go:48-70 -/
def primeLoop (n : ℕ) : List T → List (T × D) × Option Err
  | [] => ([], none)
  | t :: ts =>
    match readlink S fails n t with
    | .error .pathNotFound => primeLoop (n + 1) ts
    | .error e => ([], some e)
    | .ok d => ((t, d) :: (primeLoop (n + 1) ts).1, (primeLoop (n + 1) ts).2)

/-- cachedtagstore.go:39-74 -/
def prime (c : Cache T D) : Cache T D × Option Err :=
  if c.once then (c, none)
  else match all S fails with
    | .error e => (⟨true, c.tags⟩, some e)
    | .ok tags => (⟨true, (primeLoop S fails 1 tags).1⟩, (primeLoop S fails 1 tags).2)

/-! ## Calls -/

inductive Call (T D : Type) where
  | all
  | lookup (digest : D)
  | get (t : T)

inductive Answer (T D : Type) where
  | tags (l : List T)
  | digest (d : D)

def Call.plain : Call T D → Except Err (Answer T D)
  | .all => (TagStores.all S fails).map .tags
  | .lookup digest => (TagStores.lookup S fails digest).map .tags
  | .get t => (TagStores.get S fails t).map .digest

def Cache.serve (c : Cache T D) (names : List (T × D) → List T) :
    Cache T D × Except Err (Answer T D) :=
  match prime S fails c with
  | (c', some e) => (c', .error e)
  | (c', none) => (c', .ok (.tags (names c'.tags)))

/-- A call of the cached store, which has `Get` from the plain one. cachedtagstore.go:76-109 -/
def Call.cached (c : Cache T D) : Call T D → Cache T D × Except Err (Answer T D)
  | .all => c.serve S fails fun tags => tags.map Prod.fst
  | .lookup digest => c.serve S fails fun tags => (tags.filter (·.2 = digest)).map Prod.fst
  | .get t => (c, (TagStores.get S fails t).map .digest)

def answers (c : Cache T D) : List (Call T D × (ℕ → Bool)) → List (Except Err (Answer T D))
  | [] => []
  | (call, fails) :: calls => (call.cached S fails c).2 :: answers (call.cached S fails c).1 calls

end ContainerRegistry.Model.TagStores
