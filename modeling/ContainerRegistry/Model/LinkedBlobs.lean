import Mathlib.Tactic.Common

/-!
# Linked blobs behind a descriptor cache

`linkedblobstore.go` over `cache/cachedblobdescriptorstore.go`: calls for one digest in one
repository, any number at a time, each cut where it touches the cache or the storage. All
descriptors of the digest are equal, so it only matters whether they are there. A request that fails
has no effect. How a mount finds its blob, and how an upload is committed, is left out.

A call records what happens while it is under way (`linked`, `quiet`, `faulted`); the code does not
read these fields.
-/

namespace ContainerRegistry.Model.LinkedBlobs

/-- What is there of the digest: an entry in the repository's cache, a link in the repository,
the data. -/
structure Store where
  cached : Bool
  link : Bool
  data : Bool
  deriving DecidableEq, Repr

inductive Op where
  | stat
  | put
  | delete
  | mount
  | commit
  deriving DecidableEq, Repr

inductive Result where
  | found
  | unknown
  | ok
  | failed
  deriving DecidableEq, Repr

inductive Pc where
  | cacheStat
  -- whether the cache is to be filled with what the backend says
  | readLink (fills : Bool)
  | statData (fills : Bool)
  | fill
  | putData
  | putCache
  | putLink
  | clearCache
  | clearLink
  | mountLink
  | commitData
  | commitLink
  | commitCache
  | done (r : Result)
  deriving DecidableEq, Repr

def begin (deleteEnabled : Bool) : Op → Pc
  | .stat => .cacheStat
  | .put => .putData
  | .delete => if deleteEnabled then .cacheStat else .done .failed
  | .mount => .mountLink
  | .commit => .commitData

/-- `Delete` goes on when its `Stat` has found the blob. -/
def statFound : Op → Pc
  | .delete => .clearCache
  | _ => .done .found

/-- One request of a call to the cache or the storage, and what the call does next.
linkedblobstore.go:93-111, 224-241, 398-445, blobstore.go:61-90, blobwriter.go:75-99,
cachedblobdescriptorstore.go:57-114 -/
def advance (b : Store) (op : Op) (pc : Pc) (fails : Bool) : Option (Store × Pc) :=
  match pc with
  | .cacheStat =>
    -- an error of the cache other than an unknown blob leads to the backend as well
    some (b, if fails then .readLink false else if b.cached then statFound op else .readLink true)
  | .readLink fills =>
    some (b, if fails then .done .failed else if b.link then .statData fills else .done .unknown)
  | .statData fills =>
    some (b, if fails then .done .failed
      else if b.data then if fills then .fill else statFound op
      else .done .unknown)
  | .fill => some ({ b with cached := b.cached || !fails }, statFound op)
  | .putData =>
    some ({ b with data := b.data || !fails }, if fails then .done .failed else .putCache)
  | .putCache => some ({ b with cached := b.cached || !fails }, .putLink)
  | .putLink =>
    some ({ b with link := b.link || !fails }, if fails then .done .failed else .done .ok)
  | .clearCache =>
    some ({ b with cached := b.cached && fails }, if fails then .done .failed else .clearLink)
  | .clearLink =>
    some ({ b with link := b.link && fails }, if fails then .done .failed else .done .ok)
  | .mountLink =>
    some ({ b with link := b.link || !fails }, if fails then .done .failed else .done .ok)
  | .commitData =>
    some ({ b with data := b.data || !fails }, if fails then .done .failed else .commitLink)
  | .commitLink =>
    some ({ b with link := b.link || !fails }, if fails then .done .failed else .commitCache)
  | .commitCache => some ({ b with cached := b.cached || !fails }, .done .ok)
  | .done _ => none

def Pc.writesLink : Pc → Bool
  | .putLink | .mountLink | .commitLink => true
  | _ => false

structure Thread where
  op : Op
  pc : Pc
  -- the link has been there while the call was under way
  linked : Bool
  -- when the call began every other call had returned, a `Delete` had succeeded and no link had
  -- been written since; none has been written while the call was under way
  quiet : Bool
  -- a request of the call has failed
  faulted : Bool
  deriving DecidableEq, Repr

def Thread.returned (t : Thread) : Bool :=
  match t.pc with
  | .done _ => true
  | _ => false

/-- Record that the link has been written, unless the call has returned. -/
def Thread.note (wrote : Bool) (t : Thread) : Thread :=
  if wrote && !t.returned then { t with linked := true, quiet := false } else t

structure System where
  store : Store
  deleteEnabled : Bool
  threads : List Thread
  -- a `Delete` has succeeded and no link has been written since
  cleared : Bool
  deriving DecidableEq, Repr

inductive Action where
  | start (op : Op)
  | request (i : ℕ) (fails : Bool)
  deriving DecidableEq, Repr

def System.after (s : System) (i : ℕ) (t : Thread) (fails : Bool) (next : Store × Pc) : System :=
  let wrote := t.pc.writesLink && !fails
  { s with
    store := next.1
    threads := (s.threads.set i { t with pc := next.2, faulted := t.faulted || fails }).map
      (Thread.note wrote)
    cleared := (s.cleared || (t.pc == .clearLink && !fails)) && !wrote }

def step (s : System) : Action → Option System
  | .start op =>
    some { s with
      threads := s.threads ++ [⟨op, begin s.deleteEnabled op, s.store.link,
        s.cleared && s.threads.all Thread.returned, false⟩] }
  | .request i fails =>
    (s.threads[i]?).bind fun t =>
      (advance s.store t.op t.pc fails).map fun next => s.after i t fails next

def fresh (b : Store) (deleteEnabled : Bool) : System := ⟨b, deleteEnabled, [], false⟩

end ContainerRegistry.Model.LinkedBlobs
