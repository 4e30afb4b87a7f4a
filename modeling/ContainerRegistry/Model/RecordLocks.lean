import ContainerRegistry.Library.LockOrder
import ContainerRegistry.Model.Program
import Mathlib.Data.Prod.Lex

/-!
# Waiting for the records of the manifest review queue

In `Model.Program` a statement runs when all its row locks can be had. Here it may take those on
records of `gc_manifest_review_queue` one at a time, and wait while it holds some:

* `SELECT … ORDER BY … FOR UPDATE` visits its records in the order of the primary key,
* an upsert or a cascade visits the records it writes in whatever order the triggers fire,
* `Next` skips a locked record (`SKIP LOCKED`), and nobody else knows the id of the record that
  comes with a new manifest: neither ever waits.
-/

namespace ContainerRegistry.Model.RecordLocks

open Library

/-- A record of `gc_manifest_review_queue`, by its primary key. -/
structure Record where
  repo : RepoKey
  id : ℕ
  deriving DecidableEq, Repr

def Record.rank (r : Record) : ℕ ×ₗ ℕ ×ₗ ℕ := toLex (r.repo.namespaceID, toLex (r.repo.id, r.id))

theorem Record.rank_injective : Function.Injective Record.rank := by
  rintro ⟨⟨n, r⟩, i⟩ ⟨⟨n', r'⟩, i'⟩ h
  simp only [Record.rank, toLex_inj, Prod.mk.injEq] at h
  obtain ⟨rfl, rfl, rfl⟩ := h
  rfl

/-- The order `FindAndLockNBefore` sorts by. datastore/gcmanifesttask.go:128-132 -/
instance : LinearOrder Record := LinearOrder.lift' Record.rank Record.rank_injective

def Record.key (r : Record) : Key := .manifestReview r.repo r.id

def recordOf : Key → Option Record
  | .manifestReview repo id => some ⟨repo, id⟩
  | _ => none

@[simp] theorem recordOf_key (r : Record) : recordOf r.key = some r := rfl

/-- The records a statement locks, by selecting, writing or deleting them. -/
def recordsOf (e : Effect Row Key) : List Record :=
  ((e.ins ++ e.del).flatMap rowKeys ++ e.lock).filterMap recordOf

/-- The records the pending statement of session `t` has to lock, and waits for where they are
locked. -/
def awaited (c : Settings) (s : State) (t : ℕ) : List Record :=
  match request c s t none with
  | .exec (.createManifest _ _ _) _ _ => []
  | .exec q _ _ => recordsOf (q.effect ⟨c, (s.sess t).started, s.serial, s.db.view t⟩)
  | _ => []

/-- The session runs `FindAndLockBefore` or `FindAndLockNBefore`. -/
def selects : Proc → Bool
  | .lock _ _ _ _ => true
  | _ => false

/-- Every record session `t` has locked stands before `r`. -/
def Above (s : State) (t : ℕ) (r : Record) : Prop :=
  ∀ l ∈ s.db.locks, l.owner = t → ∀ h ∈ recordOf l.key, h < r

instance (s : State) (t : ℕ) (r : Record) : Decidable (Above s t r) :=
  inferInstanceAs (Decidable (∀ l ∈ s.db.locks, l.owner = t → ∀ h ∈ recordOf l.key, h < r))

/-- Session `t` comes to the record `r` next. A `SELECT` comes to the first record after those it
has locked. datastore/gcmanifesttask.go:91-152 -/
def ComesTo (c : Settings) (s : State) (t : ℕ) (r : Record) : Prop :=
  ¬ ((s.sess t).proc.timed ∧ (s.sess t).deadline ≤ s.clock) ∧
    r ∈ awaited c s t ∧ ¬ s.db.Holds t r.key ∧
    (selects (s.sess t).proc → Above s t r ∧ ∀ r' ∈ awaited c s t, Above s t r' → r ≤ r')

instance (s : State) (t : ℕ) (k : Key) : Decidable (s.db.Holds t k) :=
  inferInstanceAs (Decidable (_ ∈ s.db.locks))

instance (c : Settings) (s : State) (t : ℕ) (r : Record) : Decidable (ComesTo c s t r) :=
  inferInstanceAs (Decidable (_ ∧ _ ∧ _ ∧ (_ → _)))

/-- The state of the program, and the record each session waits for. -/
structure System where
  state : State
  waiting : ℕ → Option Record

def System.Held (s : System) (u : ℕ) (r : Record) : Prop := s.state.db.Holds u r.key

instance (s : System) (u : ℕ) (r : Record) : Decidable (s.Held u r) :=
  inferInstanceAs (Decidable (s.state.db.Holds u r.key))

inductive Move where
  | act (a : Action)
  | seize (t : ℕ) (r : Record)
  | wake (t : ℕ)
  deriving DecidableEq, Repr

/-- The session whose statement has to be complete for the action. A call may fail while it
waits. -/
def runner : Action → Option ℕ
  | .tick _ | .fail _ => none
  | .start t _ | .go t _ | .reviewFails t | .storageFails t _ => some t

def settled (waiting : ℕ → Option Record) : Action → ℕ → Option Record
  | .fail t => Function.update waiting t none
  | _ => waiting

def System.take (s : System) (t : ℕ) (r : Record) : System where
  state := { s.state with db := s.state.db.seize t r.key }
  waiting := Function.update s.waiting t none

theorem take_waiting (s : System) (t : ℕ) (r : Record) :
    (s.take t r).waiting = Function.update s.waiting t none := rfl

def step (c : Settings) (s : System) : Move → Option System
  | .act a =>
    if ∀ t ∈ runner a, s.waiting t = none then
      (Model.step c s.state a).map fun state => ⟨state, settled s.waiting a⟩
    else none
  | .seize t r =>
    if s.waiting t = none ∧ ComesTo c s.state t r then
      if s.state.db.Free t r.key .exclusive then some (s.take t r)
      else some { s with waiting := Function.update s.waiting t (some r) }
    else none
  | .wake t =>
    match s.waiting t with
    | none => none
    | some r => if s.state.db.Free t r.key .exclusive then some (s.take t r) else none

def init : System := ⟨Model.init, fun _ => none⟩

/-- Transactions wait for each other's records in a cycle. -/
def Deadlocked (s : System) : Prop := Deadlock s.waiting s.Held

end ContainerRegistry.Model.RecordLocks
