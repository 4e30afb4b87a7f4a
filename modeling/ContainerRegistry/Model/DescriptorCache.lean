import ContainerRegistry.Model.Schema

/-!
# Descriptor caches

`cache/memory` with a map for each repository, and `cache/redis` with a set of members for each
repository, one hash for each digest shared by all repositories, and one for each repository and
digest.

A repository is a number, and digests are well formed. A request to Redis is answered; its keys do
not collide, for a name has no colon. An instance of the in-memory cache made before its repository
had a map does not see it until it sets a descriptor itself (`Scope.captured`).
-/

namespace ContainerRegistry.Model.Caches

open Function

open Model (Digest)

structure Descriptor where
  digest : Digest
  size : Int
  mediaType : String
  deriving DecidableEq, Repr

inductive CacheError where
  | blobUnknown
  | invalidLength
  | emptyMediaType
  | digestDiffers
  deriving DecidableEq, Repr

/-- cache.go:20-36 -/
def validateDescriptor (desc : Descriptor) : Option CacheError :=
  if desc.size < 0 then some .invalidLength
  else if desc.mediaType = "" then some .emptyMediaType
  else none

/-- The answer to a call; only `Stat` returns a descriptor. -/
abbrev Answer := Except CacheError (Option Descriptor)

/-! ## In memory -/

abbrev MapCache := Digest → Option Descriptor

/-- memory.go:13-26 -/
structure Memory where
  global : MapCache
  repositories : ℕ → Option MapCache

/-- memory.go:137-152 -/
def MapCache.stat (m : MapCache) (d : Digest) : Answer :=
  match m d with
  | none => .error .blobUnknown
  | some desc => .ok (some desc)

/-- memory.go:154-160 -/
def MapCache.clear (m : MapCache) (d : Digest) : MapCache := update m d none

/-- memory.go:162-178 -/
def MapCache.setDescriptor (m : MapCache) (d : Digest) (desc : Descriptor) :
    Except CacheError MapCache :=
  match validateDescriptor desc with
  | some e => .error e
  | none => .ok (update m d (some desc))

/-- Unless it is known. memory.go:51-69 -/
def Memory.setDescriptor (m : Memory) (d : Digest) (desc : Descriptor) : Memory × Answer :=
  if (m.global d).isSome then (m, .ok none)
  else
    let canonical := d.algorithm ≠ desc.digest.algorithm ∧ d ≠ desc.digest
    match if canonical then MapCache.setDescriptor m.global desc.digest desc else .ok m.global with
    | .error e => (m, .error e)
    | .ok global =>
      match MapCache.setDescriptor global d desc with
      | .error e => ({ m with global := global }, .error e)
      | .ok global' => ({ m with global := global' }, .ok none)

/-! ## Redis -/

structure BlobHash where
  digest : Option Digest
  size : Option Int
  mediaType : Option String
  deriving DecidableEq, Repr

/-- redis.go:16-31 -/
structure Redis where
  blobs : Digest → BlobHash
  members : ℕ → Digest → Bool
  mediaTypes : ℕ → Digest → Option String

/-- redis.go:82-114 -/
def Redis.stat (r : Redis) (d : Digest) : Except CacheError Descriptor :=
  match (r.blobs d).digest, (r.blobs d).size with
  | some digest, some size => .ok ⟨digest, size, (r.blobs d).mediaType.getD ""⟩
  | _, _ => .error .blobUnknown

/-- It is unknown if there were no fields. redis.go:64-80 -/
def Redis.clear (r : Redis) (d : Digest) : Redis × Answer :=
  ({ r with blobs := update r.blobs d ⟨none, none, none⟩ },
    if r.blobs d = ⟨none, none, none⟩ then .error .blobUnknown else .ok none)

/-- The media type is set only if it is not. redis.go:131-145 -/
def Redis.setDescriptor (r : Redis) (d : Digest) (desc : Descriptor) : Redis :=
  { r with
    blobs := update r.blobs d
      ⟨some desc.digest, some desc.size, some ((r.blobs d).mediaType.getD desc.mediaType)⟩ }

/-- Membership first, then the shared hash, then the media type in the repository. redis.go:158-193
-/
def Redis.scopedStat (r : Redis) (repo : ℕ) (d : Digest) : Answer :=
  if !r.members repo d then .error .blobUnknown
  else match r.stat d with
    | .error e => .error e
    | .ok desc =>
      match r.mediaTypes repo d with
      | none => .error .blobUnknown
      | some mediaType =>
        .ok (some (if mediaType = "" then desc else { desc with mediaType := mediaType }))

/-- redis.go:195-211 -/
def Redis.scopedClear (r : Redis) (repo : ℕ) (d : Digest) : Redis × Answer :=
  if !r.members repo d then (r, .error .blobUnknown) else r.clear d

def Redis.setOne (r : Redis) (repo : ℕ) (d : Digest) (desc : Descriptor) : Redis :=
  { r.setDescriptor d desc with
    members := fun n x => if n = repo ∧ x = d then true else r.members n x
    mediaTypes := fun n x =>
      if n = repo ∧ x = d then some desc.mediaType else r.mediaTypes n x }

/-- A descriptor whose digest is of another algorithm is set under its own digest as well.
redis.go:213-258 -/
def Redis.scopedSet (r : Redis) (repo : ℕ) (d : Digest) (desc : Descriptor) : Redis × Answer :=
  match validateDescriptor desc with
  | some e => (r, .error e)
  | none =>
    if d ≠ desc.digest ∧ d.algorithm = desc.digest.algorithm then (r, .error .digestDiffers)
    else if d ≠ desc.digest then
      ((r.setOne repo d desc).setOne repo desc.digest desc, .ok none)
    else (r.setOne repo d desc, .ok none)

/-! ## Calls -/

inductive Provider where
  | memory (m : Memory)
  | redis (r : Redis)

structure Scope where
  repo : ℕ
  captured : Bool
  deriving DecidableEq, Repr

structure System where
  provider : Provider
  scopes : List Scope

/-- A call of the provider: a new scoped cache, or a call on the scoped cache `k`, or on the
provider itself. -/
inductive Call where
  | repositoryScoped (repo : ℕ)
  | stat (k : Option ℕ) (d : Digest)
  | setDescriptor (k : Option ℕ) (d : Digest) (desc : Descriptor)
  | clear (k : Option ℕ) (d : Digest)
  deriving DecidableEq, Repr

/-- memory.go:28-41, redis.go:44-53 -/
def Provider.repositoryScoped (p : Provider) (repo : ℕ) : Scope :=
  match p with
  | .memory m => ⟨repo, (m.repositories repo).isSome⟩
  | .redis _ => ⟨repo, true⟩

/-- memory.go:43-45, 80-90, redis.go:55-62, 158-193 -/
def Provider.stat (p : Provider) (x : Option Scope) (d : Digest) : Answer :=
  match p, x with
  | .memory m, none => MapCache.stat m.global d
  | .memory m, some x =>
    if x.captured then
      match m.repositories x.repo with
      | none => .error .blobUnknown
      | some repository => MapCache.stat repository d
    else .error .blobUnknown
  | .redis r, none => (r.stat d).map some
  | .redis r, some x => r.scopedStat x.repo d

/-- memory.go:47-49, 92-102, redis.go:64-80, 195-211 -/
def Provider.clear (p : Provider) (x : Option Scope) (d : Digest) : Provider × Answer :=
  match p, x with
  | .memory m, none => (.memory { m with global := MapCache.clear m.global d }, .ok none)
  | .memory m, some x =>
    if x.captured then
      (.memory { m with
        repositories := update m.repositories x.repo
          ((m.repositories x.repo).map fun repository => MapCache.clear repository d) }, .ok none)
    else (p, .error .blobUnknown)
  | .redis r, none => (.redis (r.clear d).1, (r.clear d).2)
  | .redis r, some x => (.redis (r.scopedClear x.repo d).1, (r.scopedClear x.repo d).2)

/-- Set a descriptor in the map of a repository, which is made if there is none, then in the
provider. memory.go:104-127 -/
def Memory.scopedSet (m : Memory) (repo : ℕ) (d : Digest) (desc : Descriptor) : Memory × Answer :=
  let repository : MapCache := (m.repositories repo).getD fun _ => none
  match MapCache.setDescriptor repository d desc with
  | .error e =>
    ({ m with repositories := update m.repositories repo (some repository) }, .error e)
  | .ok repository' =>
    Memory.setDescriptor
      { m with repositories := update m.repositories repo (some repository') } d desc

/-- memory.go:51-69, 104-127, redis.go:116-129, 213-258 -/
def Provider.setDescriptor (p : Provider) (x : Option Scope) (d : Digest) (desc : Descriptor) :
    Provider × Answer :=
  match p, x with
  | .memory m, none => (.memory (m.setDescriptor d desc).1, (m.setDescriptor d desc).2)
  | .memory m, some x =>
    (.memory (m.scopedSet x.repo d desc).1, (m.scopedSet x.repo d desc).2)
  | .redis r, none =>
    match validateDescriptor desc with
    | some e => (p, .error e)
    | none => (.redis (r.setDescriptor d desc), .ok none)
  | .redis r, some x => (.redis (r.scopedSet x.repo d desc).1, (r.scopedSet x.repo d desc).2)

def System.scope (s : System) : Option ℕ → Option (Option Scope)
  | none => some none
  | some k => (s.scopes[k]?).map some

/-- Setting a descriptor shows a scoped cache the map of its repository. -/
def exec (s : System) : Call → Option (System × Answer)
  | .repositoryScoped repo =>
    some (⟨s.provider, s.scopes ++ [s.provider.repositoryScoped repo]⟩, .ok none)
  | .stat k d => (s.scope k).map fun x => (s, s.provider.stat x d)
  | .setDescriptor k d desc => (s.scope k).map fun x =>
    (⟨(s.provider.setDescriptor x d desc).1,
      match k with
      | none => s.scopes
      | some k => s.scopes.modify k fun x => { x with captured := true }⟩,
      (s.provider.setDescriptor x d desc).2)
  | .clear k d => (s.scope k).map fun x =>
    (⟨(s.provider.clear x d).1, s.scopes⟩, (s.provider.clear x d).2)

def step (s : System) (c : Call) : Option System := (exec s c).map Prod.fst

def newMemory : System := ⟨.memory ⟨fun _ => none, fun _ => none⟩, []⟩

def newRedis : System :=
  ⟨.redis ⟨fun _ => ⟨none, none, none⟩, fun _ _ => false, fun _ _ => none⟩, []⟩

end ContainerRegistry.Model.Caches
