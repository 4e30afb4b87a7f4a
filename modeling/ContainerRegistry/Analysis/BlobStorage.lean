import ContainerRegistry.Analysis.BlobCollection
import ContainerRegistry.Analysis.Naming

/-!
# Data files and the rows that need them

A blob worker deletes the data file before its transaction commits, and shares no lock with the
calls that bring the blob back into use. `Separate` runs keep the two apart.
-/

namespace ContainerRegistry.Analysis

open Library Model List

/-- A worker with a dangling blob is on its way from the check to the commit: about to delete the
data file, just past that, or past the delete of the row. `gone` tells the last two apart from those
of a blob in use. -/
def Underway (gone : Prop) : BlobStage → Prop
  | .remove | .find | .delete => True
  | .forget | .commit .ok => gone
  | _ => False

def Collecting (s : State) (t : ℕ) (digest : Digest) : Prop :=
  ∃ task st, (s.sess t).proc = .blobTask task st ∧ task.digest = digest ∧
    Underway (digest ∉ s.files) st

def Removing (s : State) (t : ℕ) (digest : Digest) : Prop :=
  ∃ task st, (s.sess t).proc = .blobTask task st ∧ task.digest = digest ∧ st ≠ .remove ∧
    Underway (.blob digest ∉ s.db.view t) st

def checking : Proc → Option Digest
  | .blobTask task .dangling => some task.digest
  | _ => none

def checked : Proc → Option Digest
  | .blobTask _ .dangling => none
  | .blobTask task _ => some task.digest
  | _ => none

def deleted : Proc → Option Digest
  | .blobTask task .find | .blobTask task .delete | .blobTask task .forget
  | .blobTask task (.commit .ok) => some task.digest
  | _ => none

/-- The step `a` keeps out of the way of session `u`: a worker passes its check only if the call of
`u` does not name the blob, no call that names a blob starts while `u` is a worker past its check,
and a worker that has deleted the data file does not fail. -/
def Apart (s : State) (a : Action) (u : ℕ) : Prop :=
  match a with
  | .start _ call => ∀ digest ∈ checked (s.sess u).proc, digest ∉ digests call.entry
  | .go t _ => ∀ digest ∈ checking (s.sess t).proc,
    blobReferenced (s.db.view t) digest = false → digest ∉ digests (s.sess u).proc
  | .fail t => ∀ digest ∈ deleted (s.sess t).proc, digest ∈ s.files
  | .storageFails _ removed => removed = false
  | _ => True

instance (s : State) (u : ℕ) : ∀ a, Decidable (Apart s a u)
  | .start _ _ => inferInstanceAs (Decidable (∀ digest ∈ checked (s.sess u).proc, _))
  | .go t _ => inferInstanceAs (Decidable (∀ digest ∈ checking (s.sess t).proc, _))
  | .fail t => inferInstanceAs (Decidable (∀ digest ∈ deleted (s.sess t).proc, _))
  | .storageFails _ removed => inferInstanceAs (Decidable (removed = false))
  | .tick _ | .reviewFails _ => instDecidableTrue

def Separate (s : State) (a : Action) : Prop := ∀ u, Apart s a u

/-- Idle sessions are in nobody's way. -/
theorem separate_of_idle {s a n} (hn : 0 < n)
    (hidle : ∀ u, n ≤ u → (s.sess u).proc = .idle) (h : ∀ u < n, Apart s a u) : Separate s a := by
  intro u
  by_cases hu : u < n
  · exact h u hu
  have hp := hidle u (Nat.not_lt.1 hu)
  have h₀ := h 0 hn
  cases a with
  | start t call => simp [Apart, hp, checked]
  | go t pick => simp [Apart, hp, digests]
  | _ => exact h₀

/-- One worker has the blob at a time. -/
theorem worker_unique {s} (hi : Integrity s) {t u task task' st st'} (ht :
    (s.sess t).proc = .blobTask task st)
    (hu : (s.sess u).proc = .blobTask task' st') (hd : task'.digest = task.digest) : u = t :=
  hi.healthy.sound.exclusion t u _ ((hi.fits t).holdsBlob _ _ ht) _
    (hd ▸ (hi.fits u).holdsBlob _ _ hu)

variable {digest : Digest}

/-- A blob that no row needs can be deleted. -/
theorem consistent_deleteBlob {env : Env} (hc : Consistent schema env.view)
    (hneeds : ∀ r ∈ env.view, digest ∉ needs r) :
    Consistent schema ((env.deleteBlob digest).toDelta.view env.view) := by
  rw [Env.deleteBlob, view_writes_del]
  refine hc.filter _ fun r hr hkept p hp hdel k hk hkp => ?_
  have hr' := hneeds r hr
  simp only [mem_filter, hr, true_and, decide_eq_true_eq, Bool.not_eq_true] at hkept
  simp only [mem_filter, hp, true_and, decide_eq_false_iff_not, not_not] at hdel
  cases p <;> simp [cascadesFromBlob] at hdel <;> subst hdel <;> simp [schema, rowKeys] at hkp <;>
    subst hkp <;> cases r <;> simp [schema, rowParents] at hk
  case manifest => simp [needs, hk] at hr'
  case repositoryBlob => simp [cascadesFromBlob, hk] at hkept
  case layer => simp [needs, hk] at hr'
  case gcBlobLayer => simp [cascadesFromBlob, hk] at hkept
  case gcBlobConfiguration => simp [cascadesFromBlob, hk] at hkept

/-- A review can always be taken off. -/
theorem consistent_deleteBlobReview {env : Env} (hc : Consistent schema env.view) :
    Consistent schema ((env.deleteBlobReview digest).toDelta.view env.view) := by
  rw [Env.deleteBlobReview, view_writes_del]
  refine hc.filter _ fun r _ _ p hp hdel k hk hkp => ?_
  simp only [mem_filter, hp, true_and, decide_eq_false_iff_not, not_not] at hdel
  cases p <;> simp [isBlobReviewOf] at hdel
  simp only [schema, rowKeys, mem_singleton] at hkp
  subst hkp
  cases r <;> simp [schema, rowParents] at hk

theorem Underway.imp {P Q : Prop} {st} (hPQ : P → Q) (h : Underway P st) : Underway Q st := by
  unfold Underway at h ⊢
  split at h <;> first | trivial | exact hPQ h

/-- A file is kept, or removed by the worker. -/
theorem files_kept {c s s' a} (hs : Steps c s a s') (hok : Separate s a) (hd : digest ∈ s.files) :
    digest ∈ s'.files ∨ ∃ t task, actor a = some t ∧ (s.sess t).proc = .blobTask task .remove ∧
      (s'.sess t).proc = .blobTask task .find ∧ task.digest = digest := by
  cases hs with
  | store t pick digest' p hreq => exact .inl (mem_cons_of_mem _ hd)
  | remove t pick digest' p hreq =>
    obtain ⟨task, hp, rfl, rfl⟩ := remove_of_request hreq
    by_cases heq : digest = task.digest
    · exact .inr ⟨t, task, rfl, hp, by simp [State.jump], heq.symm⟩
    · exact .inl (by simp [hd, heq])
  | storageFails t removed task hp =>
    obtain rfl : removed = false := hok t
    exact .inl hd
  | _ => exact .inl hd

structure Stored (s : State) : Prop where
  alone : ∀ t digest, Collecting s t digest →
    (∀ u, digest ∉ digests (s.sess u).proc) ∧ ∀ r ∈ s.db.db, digest ∉ needs r
  uploaded : ∀ t repo digest st, (s.sess t).proc = .upload repo digest st → st ≠ .storage →
    digest ∈ s.files
  fresh : ∀ t digest, .blob digest ∈ (s.db.delta t).ins → digest ∈ s.files
  present : ∀ digest, .blob digest ∈ s.db.db → digest ∈ s.files ∨ ∃ t, Removing s t digest

section Steps

variable {c : Settings} {s s' : State} {a : Action}

variable {task : BlobTask} {t : ℕ}

/-- A blob that is referred to has its file. -/
theorem Stored.file_of_referenced (hi : Integrity s) (h : Stored s)
    (hp : (s.sess t).proc = .blobTask task .dangling)
    (href : blobReferenced (s.db.view t) task.digest) : task.digest ∈ s.files := by
  have hview := (hi.fits t).view_eq (by rw [hp]; rfl)
  have hc := hi.healthy.sound.base
  obtain ⟨r, hr, hi'⟩ := blobReferenced_iff.1 (hview ▸ href)
  have hblob : .blob task.digest ∈ s.db.db := by
    cases r <;> simp [blobTracking] at hi' <;> subst hi'
    · exact blob_of_parent hc hr (by simp [rowParents])
    · exact blob_of_parent hc hr (by simp [rowParents])
  rcases h.present _ hblob with hfile | ⟨u, task', st, hu, hd, -, hst⟩
  · exact hfile
  · -- only this worker has the blob, and it is still at its check
    obtain rfl := worker_unique hi hp hu hd
    rw [hp] at hu
    obtain ⟨-, rfl⟩ := Proc.blobTask.inj hu
    exact hst.elim

variable {st : BlobStage}

/-- A worker starts to collect a blob that is dangling. -/
theorem Stored.collecting_hop (hi : Integrity s) (h : Stored s) {pick}
    (hok : Separate s (.go t pick)) (hop : Hops s t (s.sess t).proc (.blobTask task st))
    (hst : Underway (task.digest ∉ s.files) st) :
    Collecting s t task.digest ∨
      ((∀ u, task.digest ∉ digests (s.sess u).proc) ∧
        blobReferenced s.db.db task.digest = false) := by
  generalize hp : (s.sess t).proc = p₀ at hop
  cases hop with
  | blobReferenced _ href => exact absurd (h.file_of_referenced hi hp href) hst
  | blobDangling _ hfree =>
    have hview := (hi.fits t).view_eq (by rw [hp]; rfl)
    exact .inr ⟨fun u => hok u task.digest (by rw [hp]; rfl) hfree, hview ▸ hfree⟩
  | blobAbsent | blobFound | blobMissing => exact .inl ⟨task, _, hp, rfl, trivial⟩

variable {digest : Digest}

/-- INTERNAL: a worker that is collecting a blob was doing so before the step, or has just found
it dangling. -/
theorem Stored.collecting_before (hi : Integrity s) (h : Stored s) (hok : Separate s a)
    (hs : Steps c s a s') (hcol : Collecting s' t digest) :
    Collecting s t digest ∨
      ((∀ u, digest ∉ digests (s.sess u).proc) ∧ blobReferenced s.db.db digest = false) := by
  obtain ⟨task, st, hp, rfl, hst⟩ := hcol
  -- a file that is missing now was missing before, unless this worker has just deleted it
  have hst : Underway (task.digest ∉ s.files) st := by
    by_cases hfind : st = .find
    · rw [hfind]
      trivial
    · refine hst.imp fun hno hd => ?_
      rcases files_kept hs hok hd with hd' | ⟨u, task', -, -, hu, heq⟩
      · exact hno hd'
      · obtain rfl := worker_unique (hi.step hs) hp hu heq
        rw [hp] at hu
        exact hfind (Proc.blobTask.inj hu).2
  have hmoves := hs.moves t
  rw [hp] at hmoves
  generalize hp₀ : (s.sess t).proc = p₀ at hmoves
  generalize hp' : Proc.blobTask task st = p' at hmoves
  cases hmoves with
  | stay =>
    rw [← hp'] at hp₀
    exact .inl ⟨task, st, hp₀, rfl, hst⟩
  | start call => cases call <;> cases hp'
  | hop pick hop =>
    subst hp' hp₀
    exact h.collecting_hop hi hok hop hst
  | begin _ hb => cases hb <;> cases hp'
  | exec _ hx =>
    generalize affected _ = b at hp'
    cases hx with
    | blobNext =>
      cases hp'
      exact hst.elim
    | blobDelete =>
      cases hp'
      exact .inl ⟨_, _, hp₀, rfl, trivial⟩
    | blobForget =>
      cases b <;> cases hp'
      exact .inl ⟨_, _, hp₀, rfl, hst⟩
    | blobPostpone =>
      cases b <;> cases hp'
      exact hst.elim
    | untag | delete | manifestForget | manifestPostpone => cases b <;> cases hp'
    | _ => cases hp'
  | commit _ hcommits => cases hcommits <;> cases hp'
  | violation | finish | fail => cases hp'
  | aside ha =>
    cases ha with
    | remove =>
      cases hp'
      exact .inl ⟨_, _, hp₀, rfl, trivial⟩
    | blobReviewFails | storageFails =>
      cases hp'
      exact hst.elim
    | _ => cases hp'

/-- What a row needs is referred to. -/
theorem blobReferenced_of_needs {rows} (ht : Tracked rows) {r} (hr : r ∈ rows)
    (hd : digest ∈ needs r) : blobReferenced rows digest := by
  rw [blobReferenced_iff]
  cases r <;> simp [needs] at hd
  case manifest repo id d payload =>
    rcases ht.configurations (repo, id, digest) ⟨_, hr, by simp [configurationMirror, hd]⟩ with
      ⟨_, -, hno⟩ | ⟨q, hq, hi⟩
    · simp [configurationMirror] at hno
    · cases q <;> simp [configurationMirror] at hi
      exact ⟨_, hq, by simp [blobTracking, hi]⟩
  case layer repo id m d =>
    subst hd
    rcases ht.layers (repo, id, digest) ⟨_, hr, rfl⟩ with ⟨_, -, hno⟩ | ⟨q, hq, hi⟩
    · simp [layerMirror] at hno
    · cases q <;> simp [layerMirror] at hi
      exact ⟨_, hq, by simp [blobTracking, hi]⟩

/-- INTERNAL: no other session has the digest of a blob that is collected. -/
theorem Stored.alone_after (hi : Integrity s) (hn : ∀ t, Named s.db t (s.sess t).proc)
    (h : Stored s) (hok : Separate s a) (hs : Steps c s a s') (hcol : Collecting s' t digest) :
    (∀ u, digest ∉ digests (s'.sess u).proc) ∧ ∀ r ∈ s'.db.db, digest ∉ needs r := by
  have hbefore : (∀ u, digest ∉ digests (s.sess u).proc) ∧ ∀ r ∈ s.db.db, digest ∉ needs r := by
    rcases h.collecting_before hi hok hs hcol with hcol | ⟨huses, hfree⟩
    · exact h.alone t digest hcol
    · refine ⟨huses, fun r hr hd => ?_⟩
      simp [blobReferenced_of_needs hi.healthy.tracked hr hd] at hfree
  refine ⟨fun u hd => ?_, fun r hr hd => ?_⟩
  · rcases mem_digests_of_steps hs hd with hd | ⟨call, rfl, hd⟩
    · exact hbefore.1 u hd
    · obtain ⟨task, st, hp, rfl, hst⟩ := hcol
      have hne : actor (.start u call) ≠ some t := by
        rintro heq
        cases heq
        cases hs
        cases call <;> simp [Call.entry] at hp
      rw [hs.sess_of_ne hne] at hp
      refine hok t task.digest ?_ hd
      rw [hp]
      cases st <;> first | rfl | exact hst.elim
  · rcases hs.committed with hdb | ⟨w, pick, p, -, -, hdb⟩
    · exact hbefore.2 r (hdb ▸ hr) hd
    · rw [hdb] at hr
      rcases (Delta.mem_view _ _ _).1 hr with hins | ⟨hold, -⟩
      · exact hbefore.1 w ((hn w).staged r hins digest (.inr hd))
      · exact hbefore.2 r hold hd

/-- The file of a blob in use is kept. -/
theorem Stored.file_kept (h : Stored s) (hok : Separate s a) (hs : Steps c s a s') {u}
    (hd : digest ∈ digests (s.sess u).proc) (hfile : digest ∈ s.files) : digest ∈ s'.files := by
  rcases files_kept hs hok hfile with hfile | ⟨t, task, -, hp, -, rfl⟩
  · exact hfile
  · exact absurd hd ((h.alone t _ ⟨task, _, hp, rfl, trivial⟩).1 u)

/-- An upload is underway, or has just stored its file. -/
theorem upload_before (hs : Steps c s a s') {u repo st}
    (hp : (s'.sess u).proc = .upload repo digest st) (hst : st ≠ .storage) :
    (∃ st₀, st₀ ≠ .storage ∧ (s.sess u).proc = .upload repo digest st₀) ∨ digest ∈ s'.files := by
  have hmoves := hs.moves u
  rw [hp] at hmoves
  generalize (s.sess u).proc = p at hmoves
  generalize hp' : Proc.upload repo digest st = p' at hmoves
  cases hmoves with
  | stay => exact .inl ⟨st, hst, hp'.symm⟩
  | start call =>
    cases call <;> simp [Call.entry] at hp'
    exact absurd hp'.2.2 hst
  | hop _ hop =>
    cases hop <;> simp at hp'
    obtain ⟨rfl, rfl, -⟩ := hp'
    exact .inl ⟨.find, by simp, rfl⟩
  | begin _ hb =>
    cases hb <;> simp at hp'
    obtain ⟨rfl, rfl, -⟩ := hp'
    exact .inl ⟨.begin, by simp, rfl⟩
  | exec _ hx =>
    generalize affected _ = b at hp'
    cases hx with
    | uploadCreate | uploadLink =>
      obtain ⟨rfl, rfl, -⟩ := Proc.upload.inj hp'
      exact .inl ⟨_, by simp, rfl⟩
    | _ => cases b <;> simp at hp'
  | commit _ hcommits => cases hcommits <;> simp at hp'
  | violation | finish | fail => simp at hp'
  | aside ha hfile =>
    cases ha with
    | store =>
      obtain ⟨-, rfl, -⟩ := Proc.upload.inj hp'
      exact .inr (hfile _ _ rfl)
    | _ => simp at hp'

/-- An upload that has stored its file keeps it. -/
theorem Stored.uploaded_after (h : Stored s) (hok : Separate s a) (hs : Steps c s a s')
    {u repo st} (hp : (s'.sess u).proc = .upload repo digest st) (hst : st ≠ .storage) :
    digest ∈ s'.files := by
  rcases upload_before hs hp hst with ⟨st₀, hst₀, hp₀⟩ | hfile
  · exact h.file_kept hok hs (u := u) (by simp [hp₀, digests])
      (h.uploaded u repo digest st₀ hp₀ hst₀)
  · exact hfile

/-- A new blob row comes with its file. -/
theorem Stored.fresh_after (hn : ∀ t, Named s.db t (s.sess t).proc) (h : Stored s)
    (hok : Separate s a) (hs : Steps c s a s') {u} (hins : .blob digest ∈ (s'.db.delta u).ins) :
    digest ∈ s'.files := by
  rcases hs.mem_ins hins with hins | ⟨q, next, hx, hins⟩
  · exact h.file_kept hok hs ((hn u).staged _ hins digest (.inl rfl)) (h.fresh u digest hins)
  have htable := table_mem_inserts hins
  have hq := stmt_of_names hins (.inl rfl)
  generalize hp : (s.sess u).proc = p at hx
  cases hx <;> simp [inserts, table] at htable
  case uploadCreate repo d =>
    obtain rfl : d = digest := by simpa using hq
    exact h.file_kept hok hs (u := u) (by simp [hp, digests]) (h.uploaded u _ d _ hp (by simp))

/-- INTERNAL: a worker that is removing a blob goes on to do so, by a move without a
statement. -/
theorem removing_hop {p} (hop : Hops s t (.blobTask task st) p) (hne : st ≠ .remove)
    (hst : Underway (.blob task.digest ∉ s.db.view t) st) :
    ∃ st', p = .blobTask task st' ∧ st' ≠ .remove ∧
      Underway (.blob task.digest ∉ s.db.view t) st' := by
  cases hop with
  | blobReferenced | blobDangling => exact hst.elim
  | blobAbsent => exact absurd rfl hne
  | blobFound => exact ⟨_, rfl, by simp, trivial⟩
  | blobMissing _ hmiss =>
    refine ⟨_, rfl, by simp, fun hb => ?_⟩
    simp [blobExists_iff.2 hb] at hmiss

/-- The worker goes on while it removes. -/
theorem removing_exec {q} {next : Bool → Proc} (hn : Named s.db t (.blobTask task st))
    (hx : Execs s t (.blobTask task st) q next)
    (hst : Underway (.blob task.digest ∉ s.db.view t) st) :
    ∃ st', next (affected (q.effect (envOf c s t))) = .blobTask task st' ∧ st' ≠ .remove ∧
      Underway (.blob task.digest ∉ (q.effect (envOf c s t)).toDelta.view (s.db.view t)) st' := by
  cases hx with
  | blobDelete =>
    refine ⟨_, rfl, by simp, ?_⟩
    simp [Underway, Stmt.effect, Env.deleteBlob, cascadesFromBlob]
  | blobForget =>
    -- the review is still there, so its removal is found
    obtain ⟨after, count, hmem⟩ := hn.queued _ _ rfl (by simp)
    have hfound : affected ((Stmt.deleteBlobReview task.digest).effect (envOf c s t)) = true := by
      simp only [affected, Stmt.effect, Env.deleteBlobReview, writes_ins, writes_del,
        isEmpty_nil, Bool.not_true, Bool.false_or, Bool.not_eq_true',
        isEmpty_eq_false_iff_exists_mem]
      exact ⟨_, mem_filter.2 ⟨hmem, by simp [isBlobReviewOf]⟩⟩
    rw [hfound]
    refine ⟨_, rfl, by simp, fun hb => hst ?_⟩
    simpa [Stmt.effect, Env.deleteBlobReview, isBlobReviewOf] using hb
  | blobPostpone => exact hst.elim

/-- A worker that collects a blob breaks no constraint. -/
theorem no_violation (hi : Integrity s) {q : Stmt} {next : Bool → Proc}
    (hp : (s.sess t).proc = .blobTask task st) (hx : Execs s t (.blobTask task st) q next)
    {P : Prop} (hst : Underway P st) (hneeds : ∀ r ∈ s.db.db, task.digest ∉ needs r) :
    s.db.write schema t (q.effect (envOf c s t)) ≠ .violation := by
  intro hw
  refine Store.write_eq_violation hw ?_
  have hc := hi.healthy.sound.views t
  cases hx with
  | blobDelete =>
    have hview := (hi.fits t).view_eq (by rw [hp]; rfl)
    exact consistent_deleteBlob hc (by rw [envOf_view, hview]; exact hneeds)
  | blobForget => exact consistent_deleteBlobReview hc
  | blobPostpone => exact hst.elim

/-- INTERNAL: a worker that removes a file goes on to its row. -/
theorem Stored.removing_after (hi : Integrity s) (hn : ∀ t, Named s.db t (s.sess t).proc)
    (h : Stored s) (hok : Separate s a) (hs : Steps c s a s') (hrem : Removing s t digest)
    (hfile : digest ∉ s.files) (hrow : .blob digest ∈ s'.db.db) : Removing s' t digest := by
  obtain ⟨task, st, hp, rfl, hne, hst⟩ := hrem
  obtain ⟨halone, hneeds⟩ := h.alone t _ ⟨task, st, hp, rfl, hst.imp fun _ => hfile⟩
  have hview := fun hact => hs.mem_view_of_ne (u := t) hact (r := .blob task.digest)
  have hmoves := hs.moves t
  rw [hp] at hmoves
  generalize hp' : (s'.sess t).proc = p' at hmoves
  cases hmoves with
  | stay hact =>
    refine ⟨task, st, hp', rfl, hne, hst.imp fun hno hb => ?_⟩
    rcases hview hact hb with hb | ⟨u, hb⟩
    · exact hno hb
    · exact halone u ((hn u).staged _ hb _ (.inl rfl))
  | start call hfree => cases hfree
  | hop _ hop hdb =>
    obtain ⟨st', rfl, hne', hst'⟩ := removing_hop hop hne hst
    exact ⟨task, st', hp', rfl, hne', hdb ▸ hst'⟩
  | begin _ hb => cases hb
  | exec _ hx hdb =>
    obtain ⟨st', hnext, hne', hst'⟩ := removing_exec (c := c) (hp ▸ hn t) hx hst
    exact ⟨task, st', hp'.trans hnext, rfl, hne', by simpa [hdb] using hst'⟩
  | violation _ _ hx hw => exact absurd hw (no_violation hi hp hx hst hneeds)
  | commit _ hcommits hdb =>
    rw [hdb] at hrow
    cases hcommits with
    | blobTask _ r =>
      cases r with
      | ok => exact absurd hrow hst
      | error => exact hst.elim
  | finish _ r hreq => exact absurd hreq (blobTask_ne_finish hp)
  | fail =>
    refine absurd (hok t task.digest ?_) hfile
    rw [hp]
    cases st with
    | remove => exact absurd rfl hne
    | commit r =>
      cases r with
      | ok => rfl
      | error => exact hst.elim
    | _ => first | rfl | exact hst.elim
  | aside ha =>
    cases ha with
    | remove | storageFails => exact absurd rfl hne
    | blobReviewFails => exact hst.elim

/-- INTERNAL: a blob with a row has its file, or is being removed. -/
theorem Stored.present_after (hi : Integrity s) (hn : ∀ t, Named s.db t (s.sess t).proc)
    (h : Stored s) (hok : Separate s a) (hs : Steps c s a s') (hrow : .blob digest ∈ s'.db.db) :
    digest ∈ s'.files ∨ ∃ t, Removing s' t digest := by
  -- the row was there before, or it is new and comes with its file
  have hbefore : digest ∈ s.files ∨ ∃ t, Removing s t digest := by
    rcases hs.committed with hdb | ⟨w, pick, p, -, -, hdb⟩
    · exact h.present digest (hdb ▸ hrow)
    · rw [hdb] at hrow
      rcases (Delta.mem_view _ _ _).1 hrow with hins | ⟨hold, -⟩
      · exact .inl (h.fresh w digest hins)
      · exact h.present digest hold
  by_cases hfile : digest ∈ s.files
  · rcases files_kept hs hok hfile with hfile | ⟨t, task, -, -, hp, rfl⟩
    · exact .inl hfile
    · exact .inr ⟨t, task, .find, hp, rfl, by simp, trivial⟩
  · obtain ⟨t, hrem⟩ := hbefore.resolve_left hfile
    exact .inr ⟨t, h.removing_after hi hn hok hs hrem hfile hrow⟩

end Steps

/-- INTERNAL: **every step out of each other's way** keeps the invariant. -/
theorem Stored.step {c s s' a} (hi : Integrity s)
    (hn : ∀ t, Named s.db t (s.sess t).proc) (h : Stored s) (hok : Separate s a)
    (hs : Steps c s a s') : Stored s' where
  alone _ _ hcol := h.alone_after hi hn hok hs hcol
  uploaded _ _ _ _ hp hst := h.uploaded_after hok hs hp hst
  fresh _ _ hins := h.fresh_after hn hok hs hins
  present _ hrow := h.present_after hi hn hok hs hrow

theorem Stored.init : Stored init where
  alone _ _ := by rintro ⟨task, st, hp, -⟩; simp [Model.init] at hp
  uploaded _ _ _ _ hp := by simp [Model.init] at hp
  fresh _ _ hins := by simp [Model.init, Store.empty] at hins
  present _ hrow := by simp [Model.init, Store.empty] at hrow

theorem stored_of_reach {c s} (h : Reach (step c) Separate init s) : Stored s :=
  h.invariant .init fun _ _ _ hr hst hok hs =>
    hst.step (integrity_of_reach hr) (named_of_reach hr) hok (steps_of_step hs)

/-- **Every blob that metadata refers to has its data**, in runs that keep blob workers and the
calls that name their blobs apart, and in which no worker fails after the storage delete.
blobworker.go:97-223, handlers/manifests.go:772-847, blobupload.go:194-229 -/
theorem referenced_blobs_stored {c : Settings} {s : State} (h : Reach (step c) Separate init s) :
    (∀ repo id manifest digest, .layer repo id manifest digest ∈ s.db.db → digest ∈ s.files) ∧
    ∀ repo id digest config layers, .manifest repo id digest (.image config layers) ∈ s.db.db →
      config ∈ s.files := by
  have hst := stored_of_reach h
  have hc : Consistent schema s.db.db := (integrity_of_reach h).healthy.sound.base
  -- a row that needs the blob keeps every worker off it
  have stored : ∀ r ∈ s.db.db, ∀ digest ∈ needs r, .blob digest ∈ s.db.db → digest ∈ s.files := by
    intro r hr digest hd hrow
    by_contra hno
    obtain ⟨t, task, st, hp, rfl, -, hrem⟩ := (hst.present digest hrow).resolve_left hno
    exact (hst.alone t _ ⟨task, st, hp, rfl, hrem.imp fun _ => hno⟩).2 r hr hd
  constructor
  · intro repo id manifest digest hr
    exact stored _ hr digest (by simp [needs]) (blob_of_parent hc hr (by simp [rowParents]))
  · intro repo id digest config layers hr
    exact stored _ hr config (by simp [needs, Payload.configuration])
      (blob_of_parent hc hr (by simp [rowParents, Payload.configuration]))

/-- A worker deletes the data file of a layer undisturbed; the configuration, which a second image
uses, stays. -/
theorem referenced_blobs_stored_collect :
    ∃ s, Reach (step standard) Separate init s ∧ Sample.layer ∉ s.files ∧
      .blob Sample.layer ∉ s.db.db ∧
      .manifest Sample.repo 6 Sample.image.digest (.image Sample.config []) ∈ s.db.db ∧
      Sample.config ∈ s.files := by
  obtain ⟨s, hs, hlayer, hblob, hm⟩ : ∃ s,
      Reach (step standard) (fun s a => (∀ u < 4, Apart s a u) ∧ Within 4 a) init s ∧
      Sample.layer ∉ s.files ∧ .blob Sample.layer ∉ s.db.db ∧
      .manifest Sample.repo 6 Sample.image.digest (.image Sample.config []) ∈ s.db.db :=
    exists_reach
      (calls 1 (.uploadBlob Sample.repo Sample.config) 5 ++
        calls 1 (.uploadBlob Sample.repo Sample.layer) 5 ++ calls 1 (.putImage Sample.layered) 14 ++
        calls 1 (.putImage Sample.image) 9 ++
        calls 1 (.deleteManifest Sample.repo Sample.layered.digest) 4 ++
        .tick (day + 1) :: calls 3 .blobWorker 1 ++
        .go 3 (some (.blobReview Sample.layer)) :: gos 3 6)
      (by decide +kernel)
  have hs' : Reach (step standard) Separate init s := hs.weaken fun _ _ hr hok =>
    separate_of_idle (by decide) (idle_of_within (fun _ _ h => h.2) hr) hok.1
  exact ⟨s, hs', hlayer, hblob, hm, (referenced_blobs_stored hs').2 _ _ _ _ _ hm⟩

/-- **A committed image loses its configuration.** The worker has found the blob dangling; before it
deletes the data file the image is pushed. -/
theorem configuration_lost :
    ∃ s, Reachable standard s ∧ (s.sess 1).proc = .done .ok ∧
      .manifest Sample.repo 3 Sample.image.digest (.image Sample.config []) ∈ s.db.db ∧
      Sample.config ∉ s.files := by
  exact exists_reach
    (calls 1 (.uploadBlob Sample.repo Sample.config) 5 ++ .tick (day + 1) ::
      calls 3 .blobWorker 1 ++ .go 3 (some (.blobReview Sample.config)) :: gos 3 1 ++
      calls 1 (.putImage Sample.image) 9 ++ gos 3 1)
    (by decide +kernel)

end ContainerRegistry.Analysis
