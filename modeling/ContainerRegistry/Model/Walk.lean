import ContainerRegistry.Library.ObjectTree
import ContainerRegistry.Library.WorkPool

/-!
# Walking a storage driver

The sequential and the parallel walks of `driver/walk.go` and of the S3 driver. A driver answers
list, stat and read requests from an `ObjectTree`; `fails` says which requests fail.

The callback answers a path with its effects on the state shared by the walk and with a verdict; no
answer stands for a callback that has not returned. The semaphore of the fallback only delays a
goroutine, and every delay is some schedule. A directory is listed in the order of the tree's
entries; every order is that of some tree.
-/

namespace ContainerRegistry.Model

open Library List

/-- A request to the storage backend. The listing of a directory is paged. -/
inductive Request (C : Type) where
  | list (p : List C) (page : ℕ)
  | stat (p : List C)
  | read (p : List C)
  deriving DecidableEq, Repr

/-- The errors a walk tells apart: a missing path, a failed request, the request of the
callback to skip a directory where there is none, and the callback's own. -/
inductive StorageError (C ε : Type) where
  | pathNotFound (p : List C)
  | failed (q : Request C)
  | skipDir
  | other (e : ε)
  deriving DecidableEq, Repr

inductive Verdict (C ε : Type) where
  | proceed
  | skip
  | fail (e : StorageError C ε)
  deriving DecidableEq, Repr

abbrev WalkFn (C E ε : Type) := List C → Bool → Option (List E × Verdict C ε)

inductive WalkError (C ε : Type) where
  | single (e : StorageError C ε)
  | multi (es : List (StorageError C ε))
  deriving DecidableEq, Repr

structure Walked (C E ε : Type) where
  effects : List E
  error : Option (WalkError C ε)
  deriving DecidableEq, Repr

variable {C κ E ε : Type}

def StorageError.isPathNotFound : StorageError C ε → Bool
  | .pathNotFound _ => true
  | .failed _ => false
  | .skipDir => false
  | .other _ => false

/-- The error says nothing but that paths are missing. -/
def WalkError.onlyPathNotFound : WalkError C ε → Bool
  | .single e => e.isPathNotFound
  | .multi es => es.all StorageError.isPathNotFound

/-! ## Listings -/

/-- How a driver lists a directory: the pages, which show exactly its names, whether each name is
looked up with a stat before the callback, and whether listing a missing directory is an error. -/
structure Listing (C κ : Type) [DecidableEq C] where
  pages : ObjectTree C κ → List C → List (List C)
  stats : Bool
  strict : Bool
  pages_ne_nil : ∀ T p, pages T p ≠ []
  mem_pages : ∀ T p c, (∃ page ∈ pages T p, c ∈ page) ↔ c ∈ T.children p

variable [DecidableEq C]

/-- `List` of a driver answers with all names at once, and fails on a missing directory. -/
def fallbackListing : Listing C κ where
  pages T p := [T.children p]
  stats := true
  strict := true
  pages_ne_nil := fun _ _ => cons_ne_nil _ _
  mem_pages := fun T p c => by simp

/-- The S3 driver asks for so many keys a page. s3.go:84-85 -/
def listMax : ℕ := 1000

/-- The names `listMax` at a time; an empty listing is one empty page. -/
def s3Pages (T : ObjectTree C κ) (p : List C) : List (List C) :=
  (List.range (((T.children p).length - 1) / listMax + 1)).map fun k =>
    ((T.children p).drop (k * listMax)).take listMax

/-- The pages have all children. -/
theorem mem_s3Pages (T : ObjectTree C κ) (p : List C) (c : C) :
    (∃ page ∈ s3Pages T p, c ∈ page) ↔ c ∈ T.children p := by
  unfold s3Pages
  simp only [mem_map, mem_range]
  constructor
  · rintro ⟨page, ⟨k, _, rfl⟩, hc⟩
    exact mem_of_mem_drop (mem_of_mem_take hc)
  · intro hc
    obtain ⟨i, hi⟩ := mem_iff_getElem?.1 hc
    have hlt : i < (T.children p).length := (List.getElem?_eq_some_iff.1 hi).1
    have hdiv : i / listMax ≤ ((T.children p).length - 1) / listMax :=
      Nat.div_le_div_right (by omega)
    have hmod : i % listMax < listMax := Nat.mod_lt i (by decide)
    have hsplit : i / listMax * listMax + i % listMax = i := Nat.div_add_mod' i listMax
    refine ⟨_, ⟨i / listMax, by omega, rfl⟩, mem_iff_getElem?.2 ⟨i % listMax, ?_⟩⟩
    rw [List.getElem?_take, if_pos hmod, List.getElem?_drop, hsplit]
    exact hi

/-- `ListObjectsV2Pages` answers page by page with keys and common prefixes, which need no stat, and
knows no missing directory. s3.go:1328-1350 -/
def s3Listing : Listing C κ where
  pages := s3Pages
  stats := false
  strict := false
  pages_ne_nil := fun _ _ => by simp [s3Pages]
  mem_pages := mem_s3Pages

/-! ## Sequential walks -/

inductive Flow (C ε : Type) where
  | next
  | stop
  | error (e : StorageError C ε)
  deriving DecidableEq, Repr

/-- What a loop has done so far: its effects, the objects it counted, and how it goes on. -/
structure Trace (C E ε : Type) where
  effects : List E
  count : ℕ
  flow : Flow C ε
  deriving DecidableEq, Repr

def Trace.still (flow : Flow C ε) : Trace C E ε := ⟨[], 0, flow⟩

def Trace.andThen (t t' : Trace C E ε) : Trace C E ε :=
  ⟨t.effects ++ t'.effects, t.count + t'.count, t'.flow⟩

def forEach {α : Type} (body : α → Option (Trace C E ε)) : List α → Option (Trace C E ε)
  | [] => some (Trace.still .next)
  | a :: as => (body a).bind fun t =>
      match t.flow with
      | .next => (forEach body as).map t.andThen
      | .stop => some t
      | .error _ => some t

/-- Leaving the loop over a page early is no error: the walk goes on after it. -/
def Trace.ofPage (n : ℕ) (t : Trace C E ε) : Trace C E ε :=
  ⟨t.effects, t.count + n, match t.flow with | .stop => .next | flow => flow⟩

section Walks

variable (ℓ : Listing C κ) (T : ObjectTree C κ) (fails : Request C → Bool) (f : WalkFn C E ε)

/-- One entry of a directory: call the callback, descend into a directory it does not skip. A skip
of a file leaves the loop. walk.go:47-61, s3.go:1379-1400 -/
def visitEntry (descend : List C → Option (Trace C E ε)) (p : List C) : Option (Trace C E ε) :=
  (f p (T.isDir p)).bind fun r =>
    match r.2 with
    | .proceed =>
      if T.isDir p then (descend p).map (Trace.andThen ⟨r.1, 0, .next⟩)
      else some ⟨r.1, 0, .next⟩
    | .skip => some ⟨r.1, 0, if T.isDir p then .next else .stop⟩
    | .fail e => some ⟨r.1, 0, .error e⟩

/-- The entry with the stat that precedes it. A path that is gone by then is passed over.
walk.go:32-46 -/
def statEntry (descend : List C → Option (Trace C E ε)) (p : List C) : Option (Trace C E ε) :=
  if ℓ.stats && fails (.stat p) then some (Trace.still (.error (.failed (.stat p))))
  else if ℓ.stats && !T.occupied p then some (Trace.still .next)
  else visitEntry T f descend p

def walkPage (descend : List C → Option (Trace C E ε)) (dir : List C) (page : List C × ℕ) :
    Option (Trace C E ε) :=
  if fails (.list dir page.2) then some (Trace.still (.error (.failed (.list dir page.2))))
  else if ℓ.strict && !T.isDir dir then some (Trace.still (.error (.pathNotFound dir)))
  else (forEach (fun c => statEntry ℓ T fails f descend (dir ++ [c])) page.1).map
    (Trace.ofPage page.1.length)

/-- A sequential walk. `fuel` bounds the depth of the recursion. -/
def walkSequential : ℕ → List C → Option (Trace C E ε)
  | 0, _ => some (Trace.still .next)
  | fuel + 1, dir =>
    forEach (walkPage ℓ T fails f (walkSequential fuel) dir) (ℓ.pages T dir).zipIdx

def Trace.error (t : Trace C E ε) : Option (WalkError C ε) :=
  match t.flow with
  | .error e => some (.single e)
  | .next => none
  | .stop => none

/-- The sequential fallback, which the filesystem, azure, swift and oss drivers use for both walks.
No path is longer than the depth of the tree, so the recursion reaches every one. walk.go:20-65 -/
def walkFallback (root : List C) : Option (Walked C E ε) :=
  (walkSequential fallbackListing T fails f (T.depth + 1) root).map fun t => ⟨t.effects, t.error⟩

/-- The sequential walk of the S3 driver: a walk that saw no object at all reports a missing path.
s3.go:1197-1219 -/
def s3Walk (root : List C) : Option (Walked C E ε) :=
  (walkSequential s3Listing T fails f (T.depth + 1) root).map fun t =>
    ⟨t.effects, t.error.or (if t.count = 0 then some (.single (.pathNotFound root)) else none)⟩

/-! ## Parallel walks -/

inductive WalkTask (C : Type) where
  | visit (p : List C)
  | list (p : List C) (page : ℕ)
  deriving DecidableEq, Repr

def descent (p : List C) : List (WalkTask C) := if T.isDir p then [.list p 0] else []

/-- The goroutines of the parallel fallback. A directory is not listed any more once an error has
closed the walk; entries listed before are still visited. walk.go:110-181 -/
def execFallback (closed : Bool) :
    WalkTask C → Option (Work (WalkTask C) E (StorageError C ε))
  | .list p k =>
    if closed then some Work.idle
    else if fails (.list p k) then some (Work.error (.failed (.list p k)))
    else if T.isDir p then some ⟨(T.children p).map fun c => .visit (p ++ [c]), [], [], 0⟩
    else some (Work.error (.pathNotFound p))
  | .visit p =>
    if fails (.stat p) then some (Work.error (.failed (.stat p)))
    else if T.occupied p then (f p (T.isDir p)).map fun r =>
      match r.2 with
      | .proceed => ⟨descent T p, r.1, [], 0⟩
      | .skip => ⟨[], r.1, if T.isDir p then [] else [.skipDir], 0⟩
      | .fail e => ⟨[], r.1, [e], 0⟩
    else some Work.idle

/-- The goroutines of the S3 walk. A page is asked for before the walk looks whether it is closed,
and a directory is entered even if the callback has failed on it. s3.go:1417-1496 -/
def execS3 (closed : Bool) :
    WalkTask C → Option (Work (WalkTask C) E (StorageError C ε))
  | .list p k =>
    if fails (.list p k) then some (Work.error (.failed (.list p k)))
    else if closed then some Work.idle
    else some
      { spawn := ((s3Pages T p)[k]?.getD []).map (fun c => .visit (p ++ [c])) ++
          if k + 1 < (s3Pages T p).length then [.list p (k + 1)] else []
        effects := []
        errors := []
        count := ((s3Pages T p)[k]?.getD []).length }
  | .visit p => (f p (T.isDir p)).map fun r =>
      match r.2 with
      | .proceed => ⟨descent T p, r.1, [], 0⟩
      | .skip => ⟨[], r.1, if T.isDir p then [] else [.skipDir], 0⟩
      | .fail e => ⟨descent T p, r.1, [e], 0⟩

def multiError (es : List (StorageError C ε)) : Option (WalkError C ε) :=
  if es.isEmpty then none else some (.multi es)

/-- The pool of a parallel walk at its end: the first listing is done by the caller, the rest
by goroutines. -/
def parallelPool (exec : Bool → WalkTask C → Option (Work (WalkTask C) E (StorageError C ε)))
    (root : List C) (turns : List Turn) : Option (Pool (WalkTask C) E (StorageError C ε)) :=
  (exec false (.list root 0)).bind fun w => finish exec w turns

/-- The parallel fallback, which the gcs and the in-memory driver use. walk.go:67-108 -/
def walkFallbackParallel (root : List C) (turns : List Turn) : Option (Walked C E ε) :=
  (parallelPool (execFallback T fails f) root turns).map fun s =>
    ⟨s.effects, multiError s.errors⟩

/-- The parallel walk of the S3 driver. A walk that counted no object reports a missing path, and
the errors its goroutines reported are dropped. s3.go:1221-1296 -/
def s3WalkParallel (root : List C) (turns : List Turn) : Option (Walked C E ε) :=
  (parallelPool (execS3 T fails f) root turns).map fun s =>
    ⟨s.effects, if s.count = 0 then some (.single (.pathNotFound root)) else multiError s.errors⟩

end Walks

/-- The implementations of `WalkParallel`: a driver without the feature flag for parallel
walks walks sequentially. -/
inductive Walker where
  | fallback
  | fallbackParallel
  | s3
  | s3Parallel
  deriving DecidableEq, Repr

/-- `WalkParallel` of a driver; the schedule only matters to the parallel walks. -/
def walkParallel (w : Walker) (T : ObjectTree C κ) (fails : Request C → Bool)
    (f : WalkFn C E ε) (root : List C) (turns : List Turn) : Option (Walked C E ε) :=
  match w with
  | .fallback => walkFallback T fails f root
  | .fallbackParallel => walkFallbackParallel T fails f root turns
  | .s3 => s3Walk T fails f root
  | .s3Parallel => s3WalkParallel T fails f root turns

end ContainerRegistry.Model
