import ContainerRegistry.Analysis.Uploads
import ContainerRegistry.Model.UploadComplete

/-!
# What a failed commit leaves behind

`Commit` closes the file before it checks the content, and a closed file is not canceled: an upload
that fails the check is removed only where the file was not closed.
-/

namespace ContainerRegistry.Analysis.Uploads

open Model.Uploads
open Model (Algorithm Digest)

variable {hash : Algorithm → List Byte → ℕ} {s s' : Backend} {bw bw' : BlobWriter} {d : Digest}
  {f : Faults} {enabled : Bool} {e : UploadError}

/-! ## Before the commit -/

/-- The file of the writer is in its place, or will be made with its first byte. -/
def InPlace (s : Backend) (fw : FileWriter) : Prop := s.data = none → fw.unlinked = true

/-- A writer that is not committed, on an upload that has begun, with its file closed or not. -/
structure Pending (enabled closed : Bool) (s : Backend) (bw : BlobWriter) : Prop where
  closed_eq : bw.fileWriter.closed = closed
  inPlace : InPlace s bw.fileWriter
  started : s.startedAt = true
  uncommitted : bw.committed = false
  enabled_eq : bw.resumableDigestEnabled = enabled

/-- The buffer is written in its place. -/
theorem flush_inPlace {fw} (h : InPlace s fw) (n : ℕ) :
    InPlace (fw.flush s n).1 (fw.flush s n).2 := by
  intro hdata
  unfold FileWriter.flush at hdata ⊢
  cases hu : fw.unlinked with
  | false =>
    simp only [hu, Bool.false_and, Bool.false_eq_true, if_false] at hdata
    rw [h hdata] at hu
    cases hu
  | true =>
    cases htake : (fw.buffer.take n).isEmpty with
    | true => simp
    | false => simp [hu, htake] at hdata

theorem Pending.resumeDigest {closed} (h : Pending enabled closed s bw) :
    Pending enabled closed s (bw.resumeDigest s).1 := by
  obtain ⟨hfw, hen, hcom⟩ := resumeDigest_frame s bw
  refine ⟨?_, ?_, h.started, hcom.trans h.uncommitted, hen.trans h.enabled_eq⟩
  · rw [hfw]
    exact h.closed_eq
  · rw [hfw]
    exact h.inPlace

/-- A resumed upload is pending. -/
theorem resume_pending (h : s.resume enabled = some (s', bw)) :
    bw.fileWriter.unusable = none ∧ Pending enabled false s' bw := by
  unfold Backend.resume at h
  split at h
  case isFalse => cases h
  case isTrue hstarted =>
    simp only [newBlobUpload, openFile] at h
    split at h
    case h_1 i hdata =>
      cases h
      exact ⟨rfl, rfl, fun hnone => (by rw [hdata] at hnone; cases hnone), hstarted, rfl, rfl⟩
    case h_2 =>
      cases h
      refine ⟨rfl, rfl, fun hnone => ?_, hstarted, rfl, rfl⟩
      cases hlazy : s.lazy with
      | true => rfl
      | false => simp [hlazy] at hnone

theorem Pending.writeChunks (hu : bw.fileWriter.unusable = none) (h : Pending enabled false s bw)
    (chunks : List (List Byte)) : (bw.writeChunks chunks).fileWriter.unusable = none ∧
      Pending enabled false s (bw.writeChunks chunks) := by
  induction chunks generalizing bw with
  | nil => exact ⟨hu, h⟩
  | cons p ps ih =>
    simp only [BlobWriter.writeChunks, BlobWriter.writeChunk, FileWriter.write, hu]
    exact ih hu { h with }

theorem tryCommit_faultless (hash : Algorithm → List Byte → ℕ) (bw : BlobWriter) (s : Backend)
    (d : Digest) :
    bw.tryCommit hash ⟨none, false, false, false, false⟩ s d =
      ((bw.commit hash s d).1, (bw.commit hash s d).2.1,
        (bw.commit hash s d).2.2.mapError .commit) := by
  simp only [BlobWriter.tryCommit, BlobWriter.commit, FileWriter.commit, BlobWriter.finish,
    BlobWriter.tryClose, BlobWriter.close, Bool.false_and, Bool.false_eq_true, if_false]
  grind [Except.mapError]

/-! ## The failed commit -/

/-- The file is not closed when a commit under these faults fails. -/
def Faults.SparesFile (f : Faults) (enabled : Bool) : Prop :=
  f.flush.isSome = true ∨ f.hashState = true ∧ enabled = true ∨ f.close = true

theorem Pending.storeHashState {closed} (h : Pending enabled closed s bw) :
    Pending enabled closed (bw.storeHashState s) bw := by
  obtain ⟨_, hdata, _, _, hstart⟩ := storeHashState_frame s bw
  refine ⟨h.closed_eq, fun hnone => h.inPlace ?_, hstart.trans h.started, h.uncommitted,
    h.enabled_eq⟩
  rw [← hdata, hnone]

/-- **The file is closed unless its hash state or the file itself fails**. -/
theorem Pending.tryClose (h : Pending enabled false s bw) (hcan : bw.fileWriter.canceled = false)
    (hflush : f.flush = none) :
    ∃ closed, (closed = false ↔ Faults.SparesFile f enabled) ∧
      Pending enabled closed (bw.tryClose f s).1 (bw.tryClose f s).2 := by
  simp only [Faults.SparesFile, hflush, Option.isSome_none, Bool.false_eq_true, false_or]
  unfold BlobWriter.tryClose
  rw [h.uncommitted, h.enabled_eq, if_neg Bool.false_ne_true]
  split
  case isTrue hfault => exact ⟨false, by simpa using .inl (by simpa using hfault), h⟩
  case isFalse hstored =>
    split
    case isTrue hclose => exact ⟨false, by simp [hclose], h.storeHashState⟩
    case isFalse hclose =>
      refine ⟨true, by simpa [hclose] using hstored, ?_⟩
      have hs := h.storeHashState
      rw [closeFile_open hs.closed_eq hcan]
      exact { hs with closed_eq := rfl, inPlace := flush_inPlace hs.inPlace _ }

/-- A commit that fails after closing. -/
theorem finish_failed (h : bw.finish hash f s d = (s', bw', .error e)) :
    s' = (bw.tryClose f s).1 ∧ bw' = ((bw.tryClose f s).2.resumeDigest s').1 := by
  simp only [BlobWriter.finish] at h
  split at h
  · cases h
    exact ⟨rfl, rfl⟩
  split at h
  · cases h
    exact ⟨rfl, rfl⟩
  · split at h
    · cases h
      exact ⟨rfl, rfl⟩
    · split at h
      · cases h
        exact ⟨rfl, rfl⟩
      · cases h

/-- INTERNAL: what a failed commit leaves, by where it failed. -/
theorem tryCommit_failed (hu : bw.fileWriter.unusable = none) (hp : Pending enabled false s bw)
    (h : bw.tryCommit hash f s d = (s', bw', .error e)) :
    ∃ closed, (closed = false ↔ Faults.SparesFile f enabled) ∧ Pending enabled closed s' bw' := by
  have hflushed : ∀ n c, Pending enabled false (bw.fileWriter.flush s n).1
      { bw with fileWriter := { (bw.fileWriter.flush s n).2 with committed := c } } := fun n _ =>
    { hp with inPlace := flush_inPlace hp.inPlace n }
  simp only [BlobWriter.tryCommit, hu] at h
  cases hf : f.flush with
  | some n =>
    simp only [hf] at h
    cases h
    exact ⟨false, by simp [Faults.SparesFile, hf], hflushed n _⟩
  | none =>
    simp only [hf] at h
    obtain ⟨rfl, rfl⟩ := finish_failed h
    obtain ⟨closed, hiff, hfail⟩ := (hflushed bw.fileWriter.buffer.length true).tryClose
      (unusable_eq_none.1 hu).2.2 hf
    exact ⟨closed, hiff, hfail.resumeDigest⟩

/-! ## The cancellation -/

/-- An upload with a closed file cannot be cancelled. -/
theorem Pending.cancel_gone_iff {closed} (h : Pending enabled closed s bw) :
    (bw.cancel s).1.Gone ↔ closed = false := by
  unfold BlobWriter.cancel
  rw [h.closed_eq]
  cases closed with
  | true =>
    refine iff_of_false (fun hgone => ?_) (by simp)
    have hnot : s.startedAt = false := hgone.2.1
    rw [h.started] at hnot
    cases hnot
  | false =>
    have hplace : (s.data.isNone && !bw.fileWriter.unlinked) = false := by
      cases hdata : s.data with
      | some i => rfl
      | none => simp [h.inPlace hdata]
    refine iff_of_true ?_ rfl
    simp only [Bool.false_eq_true, if_false, hplace]
    exact ⟨rfl, rfl, fun _ => rfl⟩

/-- Closing the canceled writer brings the directory back where hash states are saved. -/
theorem Pending.close_gone_iff {closed} (h : Pending enabled closed s bw) :
    ((bw.cancel s).2.close (bw.cancel s).1).1.Gone ↔ closed = false ∧ enabled = false := by
  have hclose : ((bw.cancel s).2.close (bw.cancel s).1).1 =
      (bw.cancel s).2.storeHashState (bw.cancel s).1 := by
    have hout : (bw.cancel s).2.fileWriter.closed = true ∨
        (bw.cancel s).2.fileWriter.canceled = true := by
      unfold BlobWriter.cancel
      split
      case isTrue hc => exact .inl hc
      case isFalse => exact .inr rfl
    have hcom : (bw.cancel s).2.committed = false := by
      unfold BlobWriter.cancel
      split <;> exact h.uncommitted
    unfold BlobWriter.close
    rw [hcom, if_neg Bool.false_ne_true, closeFile_gone hout]
  have hen : (bw.cancel s).2.resumableDigestEnabled = enabled := by
    unfold BlobWriter.cancel
    split <;> exact h.enabled_eq
  rw [hclose, ← h.cancel_gone_iff, BlobWriter.storeHashState, hen]
  cases enabled with
  | false => simp
  | true =>
    refine iff_of_false (fun hgone => ?_) (by simp)
    have hsaved := hgone.2.2 (bw.cancel s).2.written
    simp at hsaved

/-- **What a failed commit leaves behind**: the upload is gone exactly where a fault kept the file
from being closed, and stays gone exactly where besides no hash states are saved. -/
theorem put_failed_gone_iff (hash : Algorithm → List Byte → ℕ) (f : Faults) (s : Backend)
    (enabled : Bool) (chunks : List (List Byte)) (d : Digest) (s' : Backend) (bw' : BlobWriter)
    (e : UploadError)
    (h : putBlobUploadComplete hash f s enabled chunks d = some (s', bw', .error e)) :
    (s'.Gone ↔ Faults.SparesFile f enabled) ∧
      ((bw'.close s').1.Gone ↔ Faults.SparesFile f enabled ∧ enabled = false) := by
  unfold putBlobUploadComplete at h
  split at h
  case h_1 => cases h
  case h_2 s₁ bw hresume =>
    split at h
    case h_2 => cases h
    case h_1 s₂ bw₂ e' hcommit =>
      cases h
      obtain ⟨hu, hp⟩ := resume_pending hresume
      rw [← (resumeDigest_frame s₁ bw).1] at hu
      obtain ⟨hu', hp'⟩ := hp.resumeDigest.writeChunks hu chunks
      obtain ⟨closed, hiff, hfail⟩ := tryCommit_failed hu' hp' hcommit
      rw [← hiff]
      exact ⟨hfail.cancel_gone_iff, hfail.close_gone_iff⟩

/-- The disk is full: the last bytes are not written, and the upload is removed. -/
theorem full_disk_gone :
    ∃ s' bw' e, putBlobUploadComplete sampleHash ⟨some 1, false, false, false, false⟩
        (noBlobs.create true).1 true [[1, 2]] (digestOf sampleHash .sha256 [1, 2]) =
      some (s', bw', .error e) ∧ s'.Gone :=
  ⟨_, _, _, rfl, ((put_failed_gone_iff sampleHash ⟨some 1, false, false, false, false⟩
    (noBlobs.create true).1 true [[1, 2]] (digestOf sampleHash .sha256 [1, 2]) _ _ _ rfl).1).2
    (.inl rfl)⟩

/-- Two bytes are sent with the digest of others: the start time, the data file and a hash state
remain. -/
theorem wrong_digest_upload_stays :
    ((putBlobUploadComplete sampleHash ⟨none, false, false, false, false⟩
        (noBlobs.create true).1 true [[1, 2]] (digestOf sampleHash .sha256 [3])).map fun r =>
      (r.1.startedAt, r.1.content, r.1.hashStates 2, r.2.2)) =
    some (true, [1, 2], some [1, 2], .error (.commit .blobInvalidDigest)) := by
  decide +kernel

end ContainerRegistry.Analysis.Uploads
