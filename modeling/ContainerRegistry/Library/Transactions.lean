import Mathlib.Tactic.Common

/-!
# Transactions that an error aborts

A statement that fails aborts the transaction: until it is rolled back, every further statement is
refused and a commit rolls it back. A statement may also succeed with a result that its caller takes
for an error; that aborts nothing.
-/

namespace ContainerRegistry.Library

/-- A transaction: what is committed, what it sees, and whether an error has aborted it. -/
structure Tx (δ : Type) where
  committed : δ
  view : δ
  aborted : Bool

namespace Tx

variable {δ ε α : Type}

def start (db : δ) : Tx δ := ⟨db, db, false⟩

/-- Run a statement, which fails if there is a `fault` and is `refused` if the transaction has been
aborted. -/
def exec (refused : ε) (fault : Option ε) (q : δ → Except ε α × δ) (tx : Tx δ) :
    Except ε α × Tx δ :=
  if tx.aborted then (.error refused, tx)
  else match fault with
    | some e => (.error e, { tx with aborted := true })
    | none => ((q tx.view).1, { tx with view := (q tx.view).2 })

def commit (refused : ε) (fault : Option ε) (tx : Tx δ) : Except ε Unit × Tx δ :=
  if tx.aborted then (.error refused, start tx.committed)
  else match fault with
    | some e => (.error e, start tx.committed)
    | none => (.ok (), start tx.view)

variable {refused : ε} {fault : Option ε} {q : δ → Except ε α × δ} {tx : Tx δ}

@[simp] theorem start_committed (db : δ) : (start db).committed = db := rfl
@[simp] theorem start_view (db : δ) : (start db).view = db := rfl
@[simp] theorem start_aborted (db : δ) : (start db).aborted = false := rfl

@[simp] theorem exec_committed : (exec refused fault q tx).2.committed = tx.committed := by
  unfold exec
  split
  · rfl
  · split <;> rfl

theorem exec_of_aborted (h : tx.aborted = true) :
    exec refused fault q tx = (.error refused, tx) := if_pos h

theorem exec_of_fault {e} (h : tx.aborted = false) :
    exec refused (some e) q tx = (.error e, { tx with aborted := true }) := by
  simp [exec, h]

theorem exec_of_none (h : tx.aborted = false) :
    exec refused none q tx = ((q tx.view).1, { tx with view := (q tx.view).2 }) := by
  simp [exec, h]

theorem commit_of_none (h : tx.aborted = false) :
    commit refused none tx = (.ok (), start tx.view) := by
  simp [commit, h]

end Tx

end ContainerRegistry.Library
