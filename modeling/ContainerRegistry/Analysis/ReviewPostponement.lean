import ContainerRegistry.Model.Reviews

/-!
# Which failed reviews are postponed, and by how much

For the counts 25 and 29 the product of `exponentialBackoff` wraps around to a negative number,
which the comparison with the maximum lets through. A statement that fails aborts the transaction,
which then refuses the `UPDATE` that is to postpone the review.
-/

namespace ContainerRegistry.Analysis.Reviews

open Library (Tx)
open Model.Reviews
open Model (exponentialBackoff asDuration)

/-! ## The backoff -/

theorem backoff_table : ∀ n : ℕ, n < 31 → exponentialBackoff n ≤ 86400000000000 ∧
    if n = 25 ∨ n = 29 then exponentialBackoff n < 0 else
      300000000000 ≤ exponentialBackoff n ∧
        ∀ m : ℕ, m < n → exponentialBackoff m ≤ exponentialBackoff n := by
  decide +kernel

variable {i : Int}

theorem backoff_of_neg (h : i < 0) : exponentialBackoff i = 300000000000 := if_pos h

theorem backoff_of_large (h : 30 < i) : exponentialBackoff i = 86400000000000 := by
  unfold exponentialBackoff
  rw [if_neg (by omega), if_pos h]

theorem backoff_le (hi : 0 ≤ i) : exponentialBackoff i ≤ 86400000000000 := by
  by_cases hlarge : 30 < i
  · exact Int.le_of_eq (backoff_of_large hlarge)
  · obtain ⟨n, rfl⟩ := Int.eq_ofNat_of_zero_le hi
    exact (backoff_table n (by omega)).1

/-- INTERNAL: at all counts but two the backoff is five minutes at least, and no smaller than at any
count before. -/
theorem backoff_of_ne (hi : 0 ≤ i) (hne : i ≠ 25 ∧ i ≠ 29) :
    300000000000 ≤ exponentialBackoff i ∧
      ∀ j, 0 ≤ j → j ≤ i → exponentialBackoff j ≤ exponentialBackoff i := by
  by_cases hlarge : 30 < i
  · rw [backoff_of_large hlarge]
    exact ⟨by decide, fun j hj _ => backoff_le hj⟩
  obtain ⟨n, rfl⟩ := Int.eq_ofNat_of_zero_le hi
  have htable := (backoff_table n (by omega)).2
  rw [if_neg (by omega)] at htable
  refine ⟨htable.1, fun j hj hle => ?_⟩
  obtain ⟨m, rfl⟩ := Int.eq_ofNat_of_zero_le hj
  rcases Nat.lt_or_eq_of_le (Int.ofNat_le.1 hle) with hlt | rfl
  · exact htable.2 m hlt
  · exact Int.le_refl _

theorem backoff_of_eq (h : i = 25 ∨ i = 29) : exponentialBackoff i < 0 := by
  rcases h with rfl | rfl <;> decide +kernel

/-- INTERNAL: **when the backoff moves a review forward**, in the microseconds of the database. -/
theorem backoff_pos_iff (i : Int) : 0 < exponentialBackoff i / 1000 ↔ i ≠ 25 ∧ i ≠ 29 := by
  constructor
  · intro hpos
    refine ⟨fun h => ?_, fun h => ?_⟩
    · have := backoff_of_eq (.inl h)
      omega
    · have := backoff_of_eq (.inr h)
      omega
  · intro hne
    by_cases hneg : i < 0
    · rw [backoff_of_neg hneg]
      decide
    · have := (backoff_of_ne (by omega) hne).1
      omega

def postponements (r : Review) : ℕ → Review
  | 0 => r
  | n + 1 => (postponements r n).postpone (exponentialBackoff (postponements r n).reviewCount)

theorem postponements_reviewCount (r : Review) (n : ℕ) :
    (postponements r n).reviewCount = r.reviewCount + n := by
  induction n with
  | zero => simp [postponements]
  | succ n ih =>
    simp only [postponements, Review.postpone, ih]
    omega

theorem postponements_lt_iff (r : Review) (n : ℕ) :
    (postponements r n).reviewAfter < (postponements r (n + 1)).reviewAfter ↔
      r.reviewCount + n ≠ 25 ∧ r.reviewCount + n ≠ 29 := by
  rw [← backoff_pos_iff, ← postponements_reviewCount]
  simp only [postponements, Review.postpone]
  omega

/-- **The backoff** is between five minutes and a day, grows, and puts the review off every time,
exactly as long as the counts 25 and 29 are not met. -/
theorem backoff_monotone_iff (i : ℕ) (r : Review) (n : ℕ) :
    ((300000000000 ≤ exponentialBackoff i ∧ exponentialBackoff i ≤ 86400000000000 ∧
        ∀ j : ℕ, j ≤ i → exponentialBackoff j ≤ exponentialBackoff i) ↔ i ≠ 25 ∧ i ≠ 29) ∧
    ((∀ m < n, (postponements r m).reviewAfter < (postponements r (m + 1)).reviewAfter) ↔
        ∀ m : ℕ, m < n → r.reviewCount + m ≠ 25 ∧ r.reviewCount + m ≠ 29) := by
  refine ⟨⟨fun h => ?_, fun hne => ?_⟩, ?_⟩
  · have hpos := (backoff_pos_iff i).1 (by have := h.1; omega)
    omega
  · obtain ⟨hmin, hmono⟩ := backoff_of_ne (Int.natCast_nonneg i) (by omega)
    exact ⟨hmin, backoff_le (Int.natCast_nonneg i),
      fun j hj => hmono j (Int.natCast_nonneg j) (Int.ofNat_le.2 hj)⟩
  · exact forall₂_congr fun m _ => postponements_lt_iff r m

/-- At the count 25 the product wraps around: the backoff is minus 265 years, and the review is due
at once. -/
theorem backoff_negative : exponentialBackoff 24 = 86400000000000 ∧
    exponentialBackoff 25 = -8380414473709551616 ∧
    (postponements ⟨0, 25⟩ 1).reviewAfter = -8380414473709552 := by
  decide +kernel

/-! ## Statements -/

theorem bind_eq_of_eq {σ α β : Type} {first : StateM σ α} {rest : α → StateM σ β} {s s' : σ} {a : α}
    (h : first s = (a, s')) : (first >>= rest) s = rest a s' := by
  simp only [bind, StateT.bind, h]

section Statements

variable {κ α : Type} {f : Faults} {op : Op} {q : Tables κ → Except Cause α × Tables κ}
  {w : World κ}

theorem statement_of_aborted (h : w.tx.aborted = true) :
    statement f op q w = (.error .transactionAborted, w) := by
  unfold statement
  rw [Tx.exec_of_aborted h]

theorem statement_of_fault {x} (h : w.tx.aborted = false) (hf : f op = some x) :
    statement f op q w = (.error (.fault x), { w with tx := { w.tx with aborted := true } }) := by
  unfold statement
  rw [hf, Option.map_some, Tx.exec_of_fault h]

theorem statement_of_none (h : w.tx.aborted = false) (hf : f op = none) :
    statement f op q w =
      ((q w.tx.view).1, { w with tx := { w.tx with view := (q w.tx.view).2 } }) := by
  unfold statement
  rw [hf, Option.map_none, Tx.exec_of_none h]

theorem statement_committed :
    (statement f op q w).2.tx.committed = w.tx.committed := Tx.exec_committed

theorem commit_of_none (h : w.tx.aborted = false) (hf : f .commit = none) :
    commit f w = (.ok (), { w with tx := .start w.tx.view }) := by
  unfold commit
  rw [hf, Option.map_none, Tx.commit_of_none h]

end Statements

section Postponing

variable {κ : Type} [DecidableEq κ] {f : Faults} {t : GCTask κ} {w : World κ}

/-- INTERNAL: **the update is refused** in a transaction that a failed statement has aborted. -/
theorem postponeTaskAndCommit_of_aborted (h : w.tx.aborted = true) :
    postponeTaskAndCommit f t w = ([⟨.postpone, .transactionAborted⟩], w) := by
  have hpostpone : postpone f t (exponentialBackoff t.reviewCount) w =
      (.error .transactionAborted, w) := statement_of_aborted h
  rw [postponeTaskAndCommit, bind_eq_of_eq hpostpone]
  rfl

def moved (t : GCTask κ) : Review :=
  Review.postpone ⟨t.reviewAfter, t.reviewCount⟩ (exponentialBackoff t.reviewCount)

/-- A postponement that nothing prevents. -/
theorem postponeTaskAndCommit_of_open (h : w.tx.aborted = false) (hpostpone : f .postpone = none)
    (hcommit : f .commit = none) (hqueue : (w.tx.view.queue t.key).isSome) :
    postponeTaskAndCommit f t w =
      ([], { w with tx := .start (w.tx.view.enqueue t.key (some (moved t))) }) := by
  let w' : World κ := ⟨{ w.tx with view := w.tx.view.enqueue t.key (some (moved t)) }, w.files⟩
  have hrow : postpone f t (exponentialBackoff t.reviewCount) w = (.ok (), w') := by
    unfold postpone
    rw [statement_of_none h hpostpone, if_pos hqueue]
    rfl
  have hdone : commit f w' = (.ok (), { w' with tx := .start w'.tx.view }) :=
    commit_of_none h hcommit
  rw [postponeTaskAndCommit, bind_eq_of_eq hrow]
  dsimp only
  rw [bind_eq_of_eq hdone]
  rfl

end Postponing

/-! ## What the errors of a run say -/

section Runs

variable {κ : Type} [DecidableEq κ] {f : Faults} {t : GCTask κ} {w : World κ} {db : Tables κ}
  {P : Prop}

/-- What the first error says about the tables: after a failed statement they are as before, after a
failed storage delete, which is what `P` says, the review has been postponed. -/
def Tells (P : Prop) (db : Tables κ) (t : GCTask κ) (errs : List Error) (left : Tables κ) : Prop :=
  ∀ e rest, errs = e :: rest →
    (e.op = .isDangling ∨ e.op = .delete → ¬ P ∧ left = db) ∧
    (e.op = .removeBlob → P ∧ left = db.enqueue t.key (some (moved t)))

theorem tells_nil (left : Tables κ) : Tells P db t [] left := by
  intro e rest h
  cases h

/-- An aborted transaction is not postponed. -/
theorem giveUp_tells {op cause} (hP : ¬ P) (hop : op ≠ .removeBlob)
    (h : w.tx.aborted = true) (hdb : w.tx.committed = db) :
    Tells P db t (giveUp f t op cause w).1 (giveUp f t op cause w).2.tx.committed := by
  have hkept : (giveUp f t op cause w).2 = w ∧ ∃ rest, (giveUp f t op cause w).1 =
      ⟨op, cause⟩ :: rest := by
    unfold giveUp
    split
    · exact ⟨rfl, _, rfl⟩
    · rw [bind_eq_of_eq (postponeTaskAndCommit_of_aborted h)]
      exact ⟨rfl, _, rfl⟩
  obtain ⟨hw, errs, herrs⟩ := hkept
  rw [hw, herrs]
  intro e rest heq
  obtain ⟨rfl, -⟩ := List.cons.inj heq
  exact ⟨fun _ => ⟨hP, hdb⟩, fun hremove => absurd hremove hop⟩

theorem deleteManifest_tells (hP : ¬ P) (h : w.tx.aborted = false)
    (hdb : w.tx.committed = db) :
    Tells P db t (deleteManifest f t w).1 (deleteManifest f t w).2.tx.committed := by
  cases hf : f .delete with
  | some x =>
    rw [deleteManifest, deleteManifestRow, bind_eq_of_eq (statement_of_fault h hf)]
    exact giveUp_tells hP (by decide) rfl hdb
  | none =>
    rw [deleteManifest, deleteManifestRow, bind_eq_of_eq (statement_of_none h hf)]
    dsimp only
    split <;> exact tells_nil _

/-- The row is deleted, or not. -/
theorem deleteBlobFromDatabase_tells (hP : ¬ P) (hdb : w.tx.committed = db) :
    Tells P db t (deleteBlobFromDatabase f t w).1
      (deleteBlobFromDatabase f t w).2.tx.committed := by
  cases h : w.tx.aborted with
  | true =>
    rw [deleteBlobFromDatabase, deleteBlobRow, bind_eq_of_eq (statement_of_aborted h)]
    exact giveUp_tells hP (by decide) h hdb
  | false =>
    cases hf : f .delete with
    | some x =>
      rw [deleteBlobFromDatabase, deleteBlobRow, bind_eq_of_eq (statement_of_fault h hf)]
      exact giveUp_tells hP (by decide) rfl hdb
    | none =>
      rw [deleteBlobFromDatabase, deleteBlobRow, bind_eq_of_eq (statement_of_none h hf)]
      dsimp only
      split <;> exact tells_nil _

/-- A blob is deleted, or its review postponed. -/
theorem deleteBlob_tells (hP : P ↔ f .removeBlob ≠ none)
    (hpostpone : f .postpone = none) (hcommit : f .commit = none) (h : w.tx.aborted = false)
    (hdb : w.tx.committed = db) (hview : w.tx.view = db) (hqueue : (db.queue t.key).isSome) :
    Tells P db t (deleteBlob f t w).1 (deleteBlob f t w).2.tx.committed := by
  cases hf : f .removeBlob with
  | some x =>
    have hremove : removeBlob f t w = (.error (.fault x), w) := by
      simp only [removeBlob, hf]
    -- no statement has failed
    have hmoved := postponeTaskAndCommit_of_open h hpostpone hcommit (hview ▸ hqueue)
    rw [deleteBlob, bind_eq_of_eq hremove]
    dsimp only
    rw [bind_eq_of_eq hmoved, hview]
    intro e rest heq
    obtain ⟨rfl, -⟩ := List.cons.inj heq
    exact ⟨fun hop => by simp at hop, fun _ => ⟨hP.2 (by simp [hf]), rfl⟩⟩
  | none =>
    have hP : ¬ P := fun h => hP.1 h hf
    by_cases hfile : t.key ∈ w.files
    · have hremove : removeBlob f t w =
          (.ok (), { w with files := w.files.filter (· ≠ t.key) }) := by
        simp only [removeBlob, hf, if_pos hfile]
      rw [deleteBlob, bind_eq_of_eq hremove]
      dsimp only
      obtain ⟨found, w', hfind⟩ :
          ∃ found w', findByDigest f t { w with files := w.files.filter (· ≠ t.key) } =
            (found, w') := ⟨_, _, rfl⟩
      have hdb' : w'.tx.committed = db := by
        have hkept := congrArg (fun out => out.2.tx.committed) hfind
        exact (hkept.symm.trans statement_committed).trans hdb
      rw [bind_eq_of_eq hfind]
      split
      · exact tells_nil _
      · exact deleteBlobFromDatabase_tells hP hdb'
    · have hremove : removeBlob f t w = (.error .pathNotFound, w) := by
        simp only [removeBlob, hf, if_neg hfile]
      rw [deleteBlob, bind_eq_of_eq hremove]
      exact deleteBlobFromDatabase_tells hP hdb

theorem finish_tells : Tells P db t (finish f w).1.2 (finish f w).2.tx.committed := by
  obtain ⟨done, w', hcommit⟩ : ∃ done w', commit f w = (done, w') := ⟨_, _, rfl⟩
  rw [finish, bind_eq_of_eq hcommit]
  split
  · intro e rest heq
    obtain ⟨rfl, -⟩ := List.cons.inj heq
    exact ⟨fun hop => by simp at hop, fun hop => by simp at hop⟩
  · exact tells_nil _

theorem dropTask_tells : Tells P db t (dropTask f t w).1.2 (dropTask f t w).2.tx.committed := by
  obtain ⟨done, w', hdelete⟩ : ∃ done w', deleteTask f t w = (done, w') := ⟨_, _, rfl⟩
  rw [dropTask, bind_eq_of_eq hdelete]
  split
  · intro e rest heq
    obtain ⟨rfl, -⟩ := List.cons.inj heq
    exact ⟨fun hop => by simp at hop, fun hop => by simp at hop⟩
  · exact finish_tells

/-- So it is with both workers. -/
theorem collect_tells (k : Worker) (hP : P ↔ k = .blob ∧ f .removeBlob ≠ none)
    (hpostpone : f .postpone = none) (hcommit : f .commit = none) (h : w.tx.aborted = false)
    (hdb : w.tx.committed = db) (hview : w.tx.view = db) (hqueue : (db.queue t.key).isSome) :
    Tells P db t (k.collect f t w).1.2 (k.collect f t w).2.tx.committed := by
  cases k with
  | manifest =>
    have hdelete : Tells P db t (deleteManifest f t w).1 _ :=
      deleteManifest_tells (by simp [hP]) h hdb
    obtain ⟨errs, w', hrun⟩ : ∃ errs w', deleteManifest f t w = (errs, w') := ⟨_, _, rfl⟩
    rw [hrun] at hdelete
    rw [Worker.collect, bind_eq_of_eq hrun]
    split
    · exact finish_tells
    · exact hdelete
  | blob =>
    have hdelete :=
      deleteBlob_tells (hP.trans (and_iff_right rfl)) hpostpone hcommit h hdb hview hqueue
    obtain ⟨errs, w', hrun⟩ : ∃ errs w', deleteBlob f t w = (errs, w') := ⟨_, _, rfl⟩
    rw [hrun] at hdelete
    rw [Worker.collect, bind_eq_of_eq hrun]
    split
    · exact dropTask_tells
    · exact hdelete

/-- The review gets to the storage delete, which fails. -/
def RemoveFails (k : Worker) (f : Faults) (db : Tables κ) (key : κ) : Prop :=
  k = .blob ∧ f .isDangling = none ∧ key ∉ db.referenced ∧ f .removeBlob ≠ none

/-- INTERNAL: the whole review. -/
theorem review_tells (k : Worker) (hpostpone : f .postpone = none) (hcommit : f .commit = none)
    (h : w.tx.aborted = false) (hdb : w.tx.committed = db) (hview : w.tx.view = db)
    (hqueue : (db.queue t.key).isSome) :
    Tells (RemoveFails k f db t.key) db t (k.review f t w).1.2 (k.review f t w).2.tx.committed := by
  cases hf : f .isDangling with
  | some x =>
    rw [Worker.review, isDangling, bind_eq_of_eq (statement_of_fault h hf)]
    exact giveUp_tells (by simp [RemoveFails, hf]) (by decide) rfl hdb
  | none =>
    rw [Worker.review, isDangling, bind_eq_of_eq (statement_of_none h hf)]
    dsimp only
    cases hreferenced : decide (t.key ∉ w.tx.view.referenced) with
    | true =>
      have hdangling : t.key ∉ db.referenced := hview ▸ of_decide_eq_true hreferenced
      exact collect_tells k (by simp [RemoveFails, hf, hdangling]) hpostpone hcommit h hdb hview
        hqueue
    | false => exact dropTask_tells

end Runs

/-! ## Failed reviews -/

section Failures

variable {κ : Type} [DecidableEq κ]

/-- The review of `k` is still queued, with one more on its count and later by the backoff. -/
def Postponed (k : κ) (r : Review) (db : Tables κ) : Prop :=
  ∃ r', db.queue k = some r' ∧ r'.reviewCount = r.reviewCount + 1 ∧
    r'.reviewAfter = r.reviewAfter + exponentialBackoff r.reviewCount / 1000 ∧
    r.reviewAfter < r'.reviewAfter

variable {db : Tables κ}

omit [DecidableEq κ] in
theorem not_postponed {k r} (h : db.queue k = some r) : ¬ Postponed k r db := by
  rintro ⟨r', hr', hcount, -, -⟩
  rw [h, Option.some.injEq] at hr'
  subst hr'
  omega

/-- INTERNAL: a task that has been moved has been moved forward, unless its count is one of the
two. -/
theorem postponed_enqueue_iff {k r} :
    Postponed k r (db.enqueue k (some (moved ⟨k, r.reviewAfter, r.reviewCount⟩))) ↔
      r.reviewCount ≠ 25 ∧ r.reviewCount ≠ 29 := by
  rw [← backoff_pos_iff]
  unfold Postponed Tables.enqueue moved Review.postpone
  simp only [Function.update_self, Option.some.injEq, exists_eq_left']
  constructor
  · rintro ⟨-, -, hlt⟩
    omega
  · intro hpos
    exact ⟨trivial, trivial, by omega⟩

theorem processTask_eq_review {k : Worker} {f : Faults} {now : Int} {key : κ} {files : List κ}
    {r : Review} (hnext : f .next = none) (hqueue : db.queue key = some r)
    (hdue : r.reviewAfter < now) :
    k.processTask f now (some key) (.start db files) =
      k.review f ⟨key, r.reviewAfter, r.reviewCount⟩ (.start db files) := by
  rw [Worker.processTask, next, bind_eq_of_eq (statement_of_none rfl hnext)]
  simp only [World.start, Tx.start_view, Option.bind_some, hqueue, Option.filter_some, hdue,
    decide_true, if_true, Option.map_some]
  rfl

/-- **Which failed reviews are postponed.** If the postponement is at most refused, the task is
postponed exactly if it is the storage delete that fails and the review count is neither 25 nor
29. -/
theorem failed_review_postponed_iff (k : Worker) (f : Faults) (now : Int) (key : κ) (db : Tables κ)
    (files : List κ) (r : Review) (hqueue : db.queue key = some r) (hdue : r.reviewAfter < now)
    (hpostpone : f .postpone = none) (hcommit : f .commit = none) (e : Error) (rest : List Error)
    (hfailed : (k.processTask f now (some key) (.start db files)).1 = (true, e :: rest))
    (hop : e.op = .isDangling ∨ e.op = .removeBlob ∨ e.op = .delete) :
    Postponed key r (k.processTask f now (some key) (.start db files)).2.tx.committed ↔
      RemoveFails k f db key ∧ r.reviewCount ≠ 25 ∧ r.reviewCount ≠ 29 := by
  have hnext : f .next = none := by
    cases hf : f .next with
    | none => rfl
    | some x =>
      rw [Worker.processTask, next, bind_eq_of_eq (statement_of_fault rfl hf)] at hfailed
      cases hfailed
  rw [processTask_eq_review hnext hqueue hdue] at hfailed ⊢
  have hqueued : (db.queue key).isSome := by
    rw [hqueue]
    rfl
  have htells := review_tells (t := ⟨key, r.reviewAfter, r.reviewCount⟩) (w := .start db files) k
    hpostpone hcommit rfl rfl rfl hqueued
  obtain ⟨hkept, hmoved⟩ := htells e rest (congrArg Prod.snd hfailed)
  have hcases : (e.op = .isDangling ∨ e.op = .delete) ∨ e.op = .removeBlob := by tauto
  rcases hcases with hop | hop
  · obtain ⟨hnot, hleft⟩ := hkept hop
    rw [hleft]
    exact iff_of_false (not_postponed hqueue) fun h => hnot h.1
  · obtain ⟨hfails, hleft⟩ := hmoved hop
    rw [hleft, postponed_enqueue_iff]
    exact (and_iff_right hfails).symm

/-- A blob that nothing refers to, its file in storage, queued for its first review. -/
def dangling : Tables ℕ := ⟨fun k => if k = 0 then some ⟨0, 0⟩ else none, [0], []⟩

def only (op : Op) : Faults := fun o => if o = op then some .failure else none

/-- The storage delete fails, and the review is postponed by five minutes. -/
theorem failed_storage_delete_postponed :
    Postponed 0 ⟨0, 0⟩ (Worker.processTask .blob (only .removeBlob) 1 (some 0)
      (.start dangling [0])).2.tx.committed :=
  (failed_review_postponed_iff .blob (only .removeBlob) 1 0 dangling [0] ⟨0, 0⟩ rfl (by decide) rfl
    rfl ⟨.removeBlob, .fault .failure⟩ [] (by decide) (by decide)).2
    ⟨⟨rfl, rfl, by decide, nofun⟩, by decide⟩

/-- The dangling check of a manifest fails, and the `UPDATE` that is to postpone the review is
refused. -/
theorem failed_check_not_postponed :
    (Worker.processTask .manifest (only .isDangling) 1 (some 0) (.start dangling [])).1 =
        (true, [⟨.isDangling, .fault .failure⟩, ⟨.postpone, .transactionAborted⟩]) ∧
      (Worker.processTask .manifest (only .isDangling) 1 (some 0)
        (.start dangling [])).2.tx.committed.queue 0 = some ⟨0, 0⟩ := by
  decide

end Failures

end ContainerRegistry.Analysis.Reviews
