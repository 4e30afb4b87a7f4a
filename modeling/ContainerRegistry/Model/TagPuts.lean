import ContainerRegistry.Model.Program

/-!
# A manifest put by tag, next to manifest workers

One request of `PutManifest` by tag and any number of runs of `ManifestWorker.processTask` on the
manifest that is put.

Every statement is a step. A transaction that deletes the manifest holds its row until it ends: the
inserts of a tag and of a layer that refer to the row wait for it, and it waits for a tag that has
been inserted and not yet committed. The rows of other manifests, the blobs and their links do not
change. Other failures of the request are left out.
-/

namespace ContainerRegistry.Model.TagPuts

/-- What is put: an image or a list. Descriptors with URLs are left out. -/
inductive Content where
  | image (config : Digest) (layers : List Digest)
  | list (members : List Digest)
  deriving DecidableEq, Repr

structure Put where
  tag : TagName
  content : Content
  deriving DecidableEq, Repr

/-- What stays as it is: the settings, the blobs that are linked to the repository and stored, the
other manifests of the repository, and the manifests that are members of lists. -/
structure Setup where
  settings : Settings
  blobs : List Digest
  others : List Digest
  listed : List ℕ

/-- What the validators accept, a list without members included. -/
def Setup.valid (c : Setup) : Content → Bool
  | .image config layers => (config :: layers).all (· ∈ c.blobs)
  | .list members => members.all (· ∈ c.others)

inductive Outcome where
  | created
  | verification
  | blobNotFound
  | manifestNotInDatabase
  | manifestNotFound
  | database
  | unavailable
  deriving DecidableEq, Repr

/-- Program points of the request. `before` is the date `FindAndLockBefore` is called with and
`deadline` that of the context. -/
inductive Point where
  | validate
  | config
  | find
  | create
  | layers (id : ℕ) (todo : List Digest)
  | tagFind
  | select (id before deadline : ℕ)
  | lock (id before deadline : ℕ)
  | insert (id deadline : ℕ)
  | commit (id : ℕ)
  | done (r : Outcome)
  deriving DecidableEq, Repr

/-- Program points of a worker, with the manifest of its task. -/
inductive Stage where
  | idle
  | dangling (id : ℕ)
  | delete (id : ℕ)
  | deleted (id : ℕ)
  | forget (id : ℕ)
  | forgotten (id : ℕ)
  deriving DecidableEq, Repr

/-- The worker has deleted the manifest and has yet to commit. -/
def Stage.isDeleted : Stage → Bool
  | .deleted _ => true
  | _ => false

def Stage.task : Stage → Option ℕ
  | .idle => none
  | .dangling id | .delete id | .deleted id | .forget id | .forgotten id => some id

structure Row where
  id : ℕ
  layers : List Digest
  deriving DecidableEq, Repr

inductive Holder where
  | request
  | worker (w : ℕ)
  deriving DecidableEq, Repr

structure Review where
  after : ℕ
  holder : Option Holder
  deriving DecidableEq, Repr

/-- The clock and the ids, the rows of the manifest, the tags, the request and the workers.
`recreating` is set once the request has started over; `deletions` counts how often a worker has
deleted the manifest. -/
structure State where
  clock : ℕ
  serial : ℕ
  row : Option Row
  review : Option Review
  tags : List (TagName × ℕ)
  request : Point
  recreating : Bool
  workers : ℕ → Stage
  deletions : ℕ

def State.present (s : State) (id : ℕ) : Bool := s.row.any (·.id = id)

def State.reviewer (s : State) : Option ℕ :=
  s.review.bind fun v => v.holder.bind fun
    | .worker w => some w
    | .request => none

def State.deleting (s : State) : Bool := s.reviewer.any fun w => (s.workers w).isDeleted

/-- A transaction that ends gives its lock of the review up. -/
def Review.release (v : Review) (h : Holder) : Review :=
  if v.holder = some h then { v with holder := none } else v

def State.unlock (s : State) : State :=
  { s with review := s.review.map fun v => v.release .request }

def State.goto (s : State) (p : Point) : State := { s with request := p }

/-- `errors.Is(err, datastore.ErrManifestNotFound)`: put and tag the manifest once more, but not
twice. handlers/manifests.go:563-591 -/
def State.startOver (s : State) : State :=
  if s.recreating then s.goto (.done .manifestNotFound)
  else { s with request := .validate, recreating := true }

/-- handlers/manifests.go:543-591, 677-734, 772-847, 901-1004 -/
def put (c : Setup) (p : Put) (s : State) : Option State :=
  match s.request with
  | .validate =>
    some (s.goto (if c.valid p.content then .config else .done .verification))
  | .config =>
    match p.content with
    | .image config _ => some (s.goto (if config ∈ c.blobs then .find else .done .blobNotFound))
    | .list _ => some (s.goto .find)
  | .find => some (s.goto (if s.row.isSome then .tagFind else .create))
  | .create =>
    -- without members the query of `FindAndLockNBefore` has an empty `IN ()`
    if s.row.isSome ∨ p.content = .list [] then some (s.goto (.done .database))
    else some { s with
      serial := s.serial + 1
      row := some ⟨s.serial, []⟩
      review := some ⟨c.settings.gcReviewAfter s.clock .manifestUpload, none⟩
      request := match p.content with
        | .image _ layers => .layers s.serial layers
        -- the references are committed with the row
        | .list _ => .tagFind }
  | .layers _ [] => some (s.goto .tagFind)
  | .layers id (l :: todo) =>
    if l ∉ c.blobs then some (s.goto (.done .blobNotFound))
    else if s.deleting then none
    else if s.present id then
      some { s with
        row := s.row.map fun r => { r with layers := r.layers ++ [l] }
        request := .layers id todo }
    else some (s.goto (.done .database))
  | .tagFind =>
    match s.row with
    | none => some (s.goto (.done .manifestNotInDatabase))
    | some r =>
      some (s.goto (.select r.id (s.clock + reviewWindow) (s.clock + lockTimeout)))
  | .select id before deadline =>
    if deadline ≤ s.clock then none
    else if s.present id ∧ s.review.any (·.after < before) then
      some (s.goto (.lock id before deadline))
    else some (s.goto (.insert id deadline))
  | .lock id before deadline =>
    if deadline ≤ s.clock then none
    else if s.reviewer.isSome then none
    else if s.present id ∧ s.review.any (·.after < before) then
      some { s with
        review := s.review.map fun v => { v with holder := some .request }
        request := .insert id deadline }
    else some (s.goto (.insert id deadline))
  | .insert id deadline =>
    if deadline ≤ s.clock then none
    else if s.deleting then none
    -- a tag that points there already is not inserted and nothing is checked
    else if (p.tag, id) ∈ s.tags ∨ s.present id then some (s.goto (.commit id))
    else some s.unlock.startOver
  | .commit id =>
    some { s with
      tags := (p.tag, id) :: s.tags.filter (·.1 ≠ p.tag)
      review := s.unlock.review
      request := .done .created }
  | .done _ => none

/-- `Next`: the review is due and nobody has locked it. datastore/gcmanifesttask.go:166-196 -/
def next (s : State) (w : ℕ) : Option State :=
  match s.row, s.review with
  | some r, some v =>
    if v.holder = none ∧ v.after < s.clock then
      some { s with
        review := some { v with holder := some (.worker w) }
        workers := Function.update s.workers w (.dangling r.id) }
    else none
  | _, _ => none

/-- datastore/gcmanifesttask.go:232-259 -/
def State.isDangling (c : Setup) (s : State) (id : ℕ) : Bool :=
  !(s.tags.any (·.2 = id)) && id ∉ c.listed

def State.move (s : State) (w : ℕ) (st : Stage) : State :=
  { s with workers := Function.update s.workers w st }

/-- manifestworker.go:74-169 -/
def work (c : Setup) (s : State) (w : ℕ) : Option State :=
  match s.workers w with
  | .idle => next s w
  | .dangling id => some (s.move w (if s.isDangling c id then .delete id else .forget id))
  | .delete id =>
    -- the row of a tag that is not yet committed keeps the manifest
    if s.request = .commit id then none else some (s.move w (.deleted id))
  | .deleted id =>
    some { s.move w .idle with
      row := none
      review := none
      tags := s.tags.filter (·.2 ≠ id)
      deletions := s.deletions + 1 }
  | .forget id => some (s.move w (.forgotten id))
  | .forgotten _ => some { s.move w .idle with review := none }

def State.rollback (s : State) (w : ℕ) : State :=
  { s.move w .idle with review := s.review.map fun v => v.release (.worker w) }

inductive Action where
  | tick (d : ℕ)
  | put
  | expire
  | work (w : ℕ)
  | fail (w : ℕ)
  deriving DecidableEq, Repr

/-- The deadline of `manifestTagGCLockTimeout`, where the request is under it. -/
def Point.deadline : Point → Option ℕ
  | .select _ _ deadline | .lock _ _ deadline | .insert _ deadline => some deadline
  | _ => none

/-- One step. A worker that fails is rolled back: its review is not even postponed. -/
def step (c : Setup) (p : Put) (s : State) : Action → Option State
  | .tick d => some { s with clock := s.clock + d }
  | .put => put c p s
  | .expire =>
    if s.request.deadline.any (· ≤ s.clock) then
      some (s.unlock.goto (.done .unavailable))
    else none
  | .work w => work c s w
  | .fail w =>
    if s.workers w = .idle then none
    else some (s.rollback w)

/-- The request comes in: nothing is locked. The manifest may be there already, with its review, and
any tags may be. -/
def start (clock serial : ℕ) (found : Option (Row × Option ℕ)) (tags : List (TagName × ℕ)) :
    State :=
  ⟨clock, serial, found.map (·.1), (found.bind (·.2)).map fun after => ⟨after, none⟩, tags,
    .validate, false, fun _ => .idle, 0⟩

end ContainerRegistry.Model.TagPuts
