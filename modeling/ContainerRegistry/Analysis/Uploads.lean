import ContainerRegistry.Library.Runs
import ContainerRegistry.Model.BlobWriter

/-!
# Integrity of blob uploads

An instance is `Coherent` when its file and its buffer hold the upload and its hash is as it claims.
A saved state is sound when it claims less than the content, or all of it rightly (`StatesOk`). The
three ways to a digest agree on a coherent instance (`canonical_eq`).
-/

namespace ContainerRegistry.Analysis.Uploads

open Library Model.Uploads List Function
open Model (Algorithm Digest)

variable {hash : Algorithm → List Byte → ℕ} {s : Backend} {fw : FileWriter} {bw : BlobWriter}
  {d : Digest} {n : ℕ}

/-! ## Coherence -/

def held (s : Backend) (fw : FileWriter) : List Byte := s.files fw.inode ++ fw.buffer

/-- The file of the writer is that of the upload, and no blob. -/
structure Linked (s : Backend) (fw : FileWriter) : Prop where
  place : fw.unlinked = false ∧ s.data = some fw.inode ∨
    fw.unlinked = true ∧ s.data = none ∧ s.files fw.inode = []
  allocated : fw.inode < s.next
  free : ∀ d, s.blobs d ≠ some fw.inode
  size_eq : (s.files fw.inode).length + fw.buffer.length = fw.size

/-- The instance knows the upload: it has hashed all of it, or knows that it has not. -/
structure Coherent (s : Backend) (bw : BlobWriter) : Prop where
  linked : Linked s bw.fileWriter
  written_le : bw.written ≤ bw.fileWriter.size
  digester_eq : bw.written = bw.fileWriter.size → bw.digester = held s bw.fileWriter

/-- The saved hash states claim less than the content, or all of it rightly. -/
def StatesOk (s : Backend) (content : List Byte) : Prop :=
  ∀ o state, s.hashStates o = some state →
    o ≤ content.length ∧ (o = content.length → state = content)

theorem Linked.content_eq (h : Linked s fw) : s.content = s.files fw.inode := by
  unfold Backend.content
  rcases h.place with ⟨_, hd⟩ | ⟨_, hd, hf⟩
  · rw [hd]
  · rw [hd, hf]

theorem held_length (h : Linked s fw) : (held s fw).length = fw.size := by
  rw [held, length_append, h.size_eq]

theorem StatesOk.append {c} (h : StatesOk s c) (b : List Byte) : StatesOk s (c ++ b) := by
  intro o state ho
  obtain ⟨hle, heq⟩ := h o state ho
  rw [length_append]
  refine ⟨by omega, fun hall => ?_⟩
  have hb : b = [] := length_eq_zero_iff.1 (by omega)
  rw [hb, append_nil]
  exact heq (by omega)

theorem unusable_eq_none : fw.unusable = none ↔
    fw.closed = false ∧ fw.committed = false ∧ fw.canceled = false := by
  unfold FileWriter.unusable
  cases fw.closed <;> cases fw.committed <;> cases fw.canceled <;> simp

/-! ## Parts of calls -/

theorem writeAt_end (f b : List Byte) : writeAt f f.length b = f ++ b := by
  simp [writeAt]

theorem flush_files (h : Linked s fw) : (fw.flush s n).1.files =
    update s.files fw.inode (s.files fw.inode ++ fw.buffer.take n) := by
  have hpos : fw.size - fw.buffer.length = (s.files fw.inode).length := by
    have := h.size_eq
    omega
  unfold FileWriter.flush
  rw [hpos, writeAt_end]

/-- **A flush moves bytes from the buffer to the file.** -/
theorem flush_linked (h : Linked s fw) : Linked (fw.flush s n).1 (fw.flush s n).2 ∧
    held (fw.flush s n).1 (fw.flush s n).2 = held s fw := by
  have hfile : (fw.flush s n).1.files fw.inode = s.files fw.inode ++ fw.buffer.take n := by
    rw [flush_files h, update_self]
  refine ⟨⟨?_, h.allocated, h.free, ?_⟩, ?_⟩
  · show _ ∨ _ ∧ _ ∧ (fw.flush s n).1.files fw.inode = []
    rw [hfile]
    unfold FileWriter.flush
    rcases h.place with ⟨hu, hd⟩ | ⟨hu, hd, hf⟩
    · left
      simp [hu, hd]
    cases htake : fw.buffer.take n with
    | nil =>
      right
      simp [hu, hd, hf]
    | cons b bs =>
      left
      simp [hu]
  · show ((fw.flush s n).1.files fw.inode).length + (fw.buffer.drop n).length = fw.size
    rw [hfile, length_append, ← h.size_eq, length_take, length_drop]
    omega
  · show (fw.flush s n).1.files fw.inode ++ fw.buffer.drop n = held s fw
    rw [hfile, append_assoc, take_append_drop, held]

theorem flush_coherent (h : Coherent s bw) :
    Coherent (bw.fileWriter.flush s n).1 { bw with fileWriter := (bw.fileWriter.flush s n).2 } := by
  obtain ⟨hl, hheld⟩ := flush_linked (n := n) h.linked
  refine ⟨hl, h.written_le, fun hw => ?_⟩
  rw [hheld]
  exact h.digester_eq hw

theorem flush_statesOk (h : Linked s fw) (hst : StatesOk s (s.files fw.inode)) :
    StatesOk (fw.flush s n).1 ((fw.flush s n).1.files fw.inode) := by
  rw [flush_files h, update_self]
  exact hst.append _

variable (s bw) in
theorem resumeDigest_frame : (bw.resumeDigest s).1.fileWriter = bw.fileWriter ∧
    (bw.resumeDigest s).1.resumableDigestEnabled = bw.resumableDigestEnabled ∧
    (bw.resumeDigest s).1.committed = bw.committed := by
  unfold BlobWriter.resumeDigest
  split
  · exact ⟨rfl, rfl, rfl⟩
  · split
    · exact ⟨rfl, rfl, rfl⟩
    · split <;> exact ⟨rfl, rfl, rfl⟩

/-- **Resuming keeps an instance coherent**, and a digest it makes available is of all bytes. -/
theorem resumeDigest_coherent (h : Coherent s bw) (hst : StatesOk s (held s bw.fileWriter)) :
    Coherent s (bw.resumeDigest s).1 ∧
      ((bw.resumeDigest s).2 = true → (bw.resumeDigest s).1.digester = held s bw.fileWriter) := by
  have hle := h.written_le
  unfold BlobWriter.resumeDigest
  split
  · exact ⟨h, nofun⟩
  split
  · next heq => exact ⟨h, fun _ => h.digester_eq heq.symm⟩
  · next hne =>
    split
    · next state hstate =>
      -- the restored state claims as many bytes as there are
      have hall : state = held s bw.fileWriter := by
        split at hstate
        · cases hstate
        · exact (hst _ _ hstate).2 (held_length h.linked).symm
      exact ⟨⟨h.linked, Nat.le_refl _, fun _ => hall⟩, fun _ => hall⟩
    · refine ⟨⟨h.linked, hle, fun heq => absurd heq.symm hne⟩, fun hb => ?_⟩
      have := of_decide_eq_true hb
      omega

/-- A chunk is written and digested. -/
theorem writeChunk_coherent {p} (h : Coherent s bw) (hu : bw.fileWriter.unusable = none) :
    ∃ bw', bw.writeChunk p = .ok bw' ∧ Coherent s bw' ∧
      held s bw'.fileWriter = held s bw.fileWriter ++ p ∧
      bw'.fileWriter = { bw.fileWriter with
        buffer := bw.fileWriter.buffer ++ p, size := bw.fileWriter.size + p.length } ∧
      bw'.committed = bw.committed := by
  unfold BlobWriter.writeChunk FileWriter.write
  rw [hu]
  refine ⟨_, rfl, ⟨⟨h.linked.place, h.linked.allocated, h.linked.free, ?_⟩, ?_, ?_⟩, ?_, rfl, rfl⟩
  · have := h.linked.size_eq
    simp only [length_append]
    omega
  · have := h.written_le
    simp only
    omega
  · intro hw
    have hw' : bw.written = bw.fileWriter.size := Nat.add_right_cancel hw
    simp only [held, h.digester_eq hw', append_assoc]
  · simp only [held, append_assoc]

/-- **Chunks are taken one after the other**: the instance stays coherent and usable. -/
theorem writeChunks_coherent (chunks : List (List Byte)) (h : Coherent s bw)
    (hu : bw.fileWriter.unusable = none) :
    Coherent s (bw.writeChunks chunks) ∧
      held s (bw.writeChunks chunks).fileWriter = held s bw.fileWriter ++ chunks.flatten ∧
      (bw.writeChunks chunks).fileWriter.inode = bw.fileWriter.inode ∧
      (bw.writeChunks chunks).fileWriter.unusable = none ∧
      (bw.writeChunks chunks).fileWriter.canceled = bw.fileWriter.canceled ∧
      (bw.writeChunks chunks).committed = bw.committed := by
  induction chunks generalizing bw with
  | nil => exact ⟨h, by simp [BlobWriter.writeChunks], rfl, hu, rfl, rfl⟩
  | cons p ps ih =>
    obtain ⟨bw', hok, hc, hheld, hfw, hcom⟩ := writeChunk_coherent (p := p) h hu
    have hu' : bw'.fileWriter.unusable = none := by rw [hfw]; exact hu
    obtain ⟨hc', hheld', hin, hun, hcan, hcom'⟩ := ih hc hu'
    rw [BlobWriter.writeChunks, hok]
    refine ⟨hc', ?_, ?_, hun, ?_, hcom'.trans hcom⟩
    · rw [hheld', hheld, flatten_cons, append_assoc]
    · rw [hin, hfw]
    · rw [hcan, hfw]

theorem writeChunks_unusable {chunks}
    (hu : bw.fileWriter.unusable ≠ none) : bw.writeChunks chunks = bw := by
  cases chunks with
  | nil => rfl
  | cons p ps =>
    rw [BlobWriter.writeChunks, BlobWriter.writeChunk, FileWriter.write]
    cases hun : bw.fileWriter.unusable with
    | none => exact absurd hun hu
    | some e => rfl

/-- The state of the digester is saved. -/
theorem storeHashState_sound (h : Coherent s bw) (hst : StatesOk s (held s bw.fileWriter)) :
    Coherent (bw.storeHashState s) bw ∧ StatesOk (bw.storeHashState s) (held s bw.fileWriter) := by
  unfold BlobWriter.storeHashState
  split
  · refine ⟨⟨{ h.linked with }, h.written_le, h.digester_eq⟩, ?_⟩
    intro o state ho
    by_cases hw : o = bw.written
    · subst hw
      simp only [update_self, Option.some.injEq] at ho
      rw [held_length h.linked]
      exact ⟨h.written_le, fun heq => ho ▸ h.digester_eq heq⟩
    · simp only [update_of_ne hw] at ho
      exact hst o state ho
  · exact ⟨h, hst⟩

variable (s bw) in
theorem storeHashState_frame : (bw.storeHashState s).files = s.files ∧
    (bw.storeHashState s).data = s.data ∧ (bw.storeHashState s).next = s.next ∧
    (bw.storeHashState s).blobs = s.blobs ∧ (bw.storeHashState s).startedAt = s.startedAt := by
  unfold BlobWriter.storeHashState
  split <;> exact ⟨rfl, rfl, rfl, rfl, rfl⟩

variable (hash) in
/-- **The three ways to a digest agree** where the buffer is written: they give the digest of the
content. -/
theorem canonical_eq (h : Coherent s bw) (hst : StatesOk s (held s bw.fileWriter))
    (hbuf : bw.fileWriter.buffer = []) :
    bw.canonical hash s d =
      if d = digestOf hash d.algorithm s.content then
        some (digestOf hash .sha256 s.content)
      else none := by
  obtain ⟨hc, havail⟩ := resumeDigest_coherent h hst
  have hheld : held s bw.fileWriter = s.content := by
    rw [held, hbuf, append_nil, h.linked.content_eq]
  have hsize : bw.fileWriter.size = s.content.length := by
    rw [← held_length h.linked, hheld]
  have hsha : d.algorithm = .sha256 → ∀ c, (d = digestOf hash .sha256 c ↔
      d = digestOf hash d.algorithm c) := by
    intro ha c
    rw [ha]
  have hcanon : d.algorithm = .sha256 → d = digestOf hash d.algorithm s.content →
      d = digestOf hash .sha256 s.content := fun ha hd => by rwa [ha] at hd
  unfold BlobWriter.canonical
  split
  · next hfast =>
    rw [Bool.and_eq_true, decide_eq_true_eq] at hfast
    rw [havail hfast.1, hheld]
    by_cases hd : d = digestOf hash d.algorithm s.content
    · rw [if_pos ((hsha hfast.2 _).2 hd), if_pos hd, ← hcanon hfast.2 hd]
    · rw [if_neg fun h => hd ((hsha hfast.2 _).1 h), if_neg hd]
  · split
    · next hsize' =>
      simp only [Bool.and_eq_true, decide_eq_true_eq] at hsize'
      obtain ⟨⟨hw, ha⟩, hd⟩ := hsize'
      have hdig : (bw.resumeDigest s).1.digester = s.content := by
        rw [← hheld, ← (resumeDigest_frame s bw).1]
        refine hc.digester_eq ?_
        rw [hw, (resumeDigest_frame s bw).1, hsize]
      rw [hdig] at hd
      rw [if_pos ((hsha ha _).1 hd), ← hd]
    · rfl

variable (hash d) in
theorem validateBlob_eq (h : Coherent s bw) (hst : StatesOk s (held s bw.fileWriter))
    (hbuf : bw.fileWriter.buffer = []) :
    bw.validateBlob hash s d =
      if d = digestOf hash d.algorithm s.content then
        .ok ⟨digestOf hash .sha256 s.content, s.content.length⟩
      else .error .blobInvalidDigest := by
  have hsize : bw.fileWriter.size = s.content.length := by
    rw [h.linked.content_eq, ← h.linked.size_eq, hbuf, length_nil, Nat.add_zero]
  unfold BlobWriter.validateBlob
  rw [canonical_eq hash h hst hbuf, if_neg (by simp [hsize])]
  by_cases hd : d = digestOf hash d.algorithm s.content
  · rw [if_pos hd, if_pos hd]
  · rw [if_neg hd, if_neg hd]

/-! ## Closing the file -/

theorem closeFile_open (hopen : bw.fileWriter.closed = false)
    (hcan : bw.fileWriter.canceled = false) :
    bw.closeFile s = ((bw.fileWriter.flush s bw.fileWriter.buffer.length).1,
      { bw with fileWriter :=
        { (bw.fileWriter.flush s bw.fileWriter.buffer.length).2 with closed := true } }) := by
  simp [BlobWriter.closeFile, FileWriter.close, hopen, hcan]

theorem closeFile_gone (h : bw.fileWriter.closed = true ∨ bw.fileWriter.canceled = true) :
    bw.closeFile s = (s, bw) := by
  unfold BlobWriter.closeFile FileWriter.close
  cases hclosed : bw.fileWriter.closed with
  | true => simp
  | false => simp [h.resolve_left (by simp [hclosed])]

/-- **Closing the file writes the buffer**, and hash states saved for all bytes are then right for
the file. -/
theorem closeFile_coherent (h : Coherent s bw) (hst : StatesOk s (held s bw.fileWriter))
    (hflushed : bw.fileWriter.closed = true → bw.fileWriter.buffer = [])
    (hcan : bw.fileWriter.canceled = false) :
    Coherent (bw.closeFile s).1 (bw.closeFile s).2 ∧
      held (bw.closeFile s).1 (bw.closeFile s).2.fileWriter = held s bw.fileWriter ∧
      StatesOk (bw.closeFile s).1 (held s bw.fileWriter) ∧
      (bw.closeFile s).2.fileWriter.closed = true ∧
      (bw.closeFile s).2.fileWriter.buffer = [] ∧
      (bw.closeFile s).2.fileWriter.canceled = false ∧
      (bw.closeFile s).2.fileWriter.inode = bw.fileWriter.inode ∧
      (bw.closeFile s).2.committed = bw.committed := by
  cases hclosed : bw.fileWriter.closed with
  | true =>
    rw [closeFile_gone (.inl hclosed)]
    exact ⟨h, rfl, hst, hclosed, hflushed hclosed, hcan, rfl, rfl⟩
  | false =>
    rw [closeFile_open hclosed hcan]
    obtain ⟨hl, hheld⟩ := flush_linked (n := bw.fileWriter.buffer.length) h.linked
    have hc := flush_coherent (n := bw.fileWriter.buffer.length) h
    have hdrop : bw.fileWriter.buffer.drop bw.fileWriter.buffer.length = [] := drop_length
    exact ⟨⟨{ hl with }, hc.written_le, hc.digester_eq⟩, hheld, hst, rfl, hdrop, hcan, rfl, rfl⟩

/-- What closing leaves alone. -/
theorem closeFile_frame (h : Linked s bw.fileWriter) :
    (bw.closeFile s).1.blobs = s.blobs ∧ (bw.closeFile s).1.next = s.next ∧
      (bw.closeFile s).1.startedAt = s.startedAt ∧
      ∀ i, i ≠ bw.fileWriter.inode → (bw.closeFile s).1.files i = s.files i := by
  unfold BlobWriter.closeFile FileWriter.close
  split
  · next s' e heq =>
    split at heq
    · cases heq
      exact ⟨rfl, rfl, rfl, fun _ _ => rfl⟩
    · split at heq
      · cases heq
        exact ⟨rfl, rfl, rfl, fun _ _ => rfl⟩
      · cases heq
  · next s' fw heq =>
    split at heq
    · cases heq
    · split at heq
      · cases heq
      · cases heq
        refine ⟨rfl, rfl, rfl, fun i hi => ?_⟩
        rw [flush_files h, update_of_ne hi]

/-! ## Opening the file -/

/-- The data file and the blobs are allocated, and apart. -/
structure Placed (s : Backend) : Prop where
  blobs_lt : ∀ d i, s.blobs d = some i → i < s.next
  data_lt : ∀ i, s.data = some i → i < s.next
  apart : ∀ d i, s.data = some i → s.blobs d ≠ some i

/-- The file is opened with its content. -/
theorem openFile_linked (h : Placed s) : Linked (openFile s).1 (openFile s).2 ∧
    (openFile s).1.files (openFile s).2.inode = s.content ∧ (openFile s).2.buffer = [] := by
  unfold openFile Backend.content
  cases hd : s.data with
  | some i =>
    exact ⟨⟨.inl ⟨rfl, hd⟩, h.data_lt i hd, fun d => h.apart d i hd, rfl⟩, rfl, rfl⟩
  | none =>
    refine ⟨⟨?_, Nat.lt_succ_self _, ?_, ?_⟩, update_self .., rfl⟩
    · simp only [update_self]
      cases s.lazy <;> simp
    · intro d hd
      exact absurd (h.blobs_lt d s.next hd) (Nat.lt_irrefl _)
    · simp only [update_self]
      rfl

theorem openFile_frame : (openFile s).1.blobs = s.blobs ∧
    (openFile s).1.hashStates = s.hashStates ∧ (openFile s).1.startedAt = s.startedAt ∧
    (∀ i < s.next, (openFile s).1.files i = s.files i) ∧
    (openFile s).2.unusable = none ∧ (s.data = some (openFile s).2.inode ∨
      (openFile s).2.inode = s.next) := by
  unfold openFile
  cases hd : s.data with
  | some i => exact ⟨rfl, rfl, rfl, fun _ _ => rfl, rfl, .inl rfl⟩
  | none =>
    exact ⟨rfl, rfl, rfl, fun i hi => update_of_ne (Nat.ne_of_lt hi) .., rfl, .inr rfl⟩

/-- **A new instance is coherent**: it has hashed nothing. -/
theorem newBlobUpload_coherent (h : Placed s) (enabled : Bool) :
    Coherent (newBlobUpload s enabled).1 (newBlobUpload s enabled).2 := by
  obtain ⟨hl, hfile, hbuf⟩ := openFile_linked h
  refine ⟨hl, Nat.zero_le _, fun hw => ?_⟩
  have hlen := held_length hl
  have hzero : (openFile s).2.size = 0 := Eq.symm hw
  rw [hzero] at hlen
  exact (length_eq_zero_iff.1 hlen).symm

/-! ## Calls in sequence -/

section Calls

variable {s₀ : Backend} {u u' : Upload} {bytes : List Byte} {enabled : Bool}

/-- The latest instance and the storage agree on the bytes received, and the rest of the storage is
as the upload began. -/
structure Ongoing (s₀ : Backend) (u : Upload) (bytes : List Byte) : Prop where
  started : u.store.startedAt = true
  coherent : Coherent u.store u.writer
  held_eq : held u.store u.writer.fileWriter = bytes
  states : StatesOk u.store (u.store.files u.writer.fileWriter.inode)
  flushed : u.writer.fileWriter.closed = true → u.writer.fileWriter.buffer = []
  notCanceled : u.writer.fileWriter.canceled = false
  uncommitted : u.writer.committed = false
  blobs_eq : u.store.blobs = s₀.blobs
  files_eq : ∀ i < s₀.next, u.store.files i = s₀.files i
  fresh : s₀.next ≤ u.writer.fileWriter.inode

section

variable (h : Ongoing s₀ u bytes)
include h

theorem Ongoing.statesOk : StatesOk u.store (held u.store u.writer.fileWriter) :=
  h.states.append _

/-- An upload is closed, -/
theorem close_ongoing :
    Ongoing s₀ ⟨(u.writer.close u.store).1, (u.writer.close u.store).2⟩ bytes ∧
      (u.writer.close u.store).2.fileWriter.closed = true := by
  have hclose : u.writer.close u.store = u.writer.closeFile (u.writer.storeHashState u.store) := by
    simp [BlobWriter.close, h.uncommitted]
  obtain ⟨hfiles, _, hnext, hblobs, hstart⟩ := storeHashState_frame u.store u.writer
  obtain ⟨hc, hst⟩ := storeHashState_sound h.coherent h.statesOk
  have hheld : held (u.writer.storeHashState u.store) u.writer.fileWriter =
      held u.store u.writer.fileWriter := by rw [held, held, hfiles]
  obtain ⟨hc', hheld', hst', hclosed, hbuf, hcan, hinode, hcom⟩ :=
    closeFile_coherent hc (hheld ▸ hst) h.flushed h.notCanceled
  obtain ⟨hblobs', hnext', hstart', hother⟩ := closeFile_frame hc.linked
  rw [hclose]
  refine ⟨⟨?_, hc', ?_, ?_, fun _ => hbuf, hcan, ?_, ?_, ?_, ?_⟩, hclosed⟩
  · rw [hstart', hstart, h.started]
  · rw [hheld', hheld, h.held_eq]
  · -- the file now holds all the bytes that the states were sound for
    have hall : (u.writer.closeFile (u.writer.storeHashState u.store)).1.files
        (u.writer.closeFile (u.writer.storeHashState u.store)).2.fileWriter.inode =
          held (u.writer.storeHashState u.store) u.writer.fileWriter := by
      rw [← hheld', held, hbuf, append_nil]
    show StatesOk _ ((u.writer.closeFile (u.writer.storeHashState u.store)).1.files _)
    rw [hall]
    exact hst'
  · rw [hcom, h.uncommitted]
  · rw [hblobs', hblobs, h.blobs_eq]
  · intro i hi
    have hne : i ≠ u.writer.fileWriter.inode := by
      have := h.fresh
      omega
    rw [hother i hne, hfiles, h.files_eq i hi]
  · rw [hinode]
    exact h.fresh

/-- its digester restored, -/
theorem resumeDigest_ongoing : Ongoing s₀ ⟨u.store, (u.writer.resumeDigest u.store).1⟩ bytes := by
  obtain ⟨hfw, _, hcom⟩ := resumeDigest_frame u.store u.writer
  refine ⟨h.started, (resumeDigest_coherent h.coherent h.statesOk).1, ?_, ?_, ?_, ?_, ?_,
    h.blobs_eq, h.files_eq, ?_⟩
  · rw [hfw]
    exact h.held_eq
  · rw [hfw]
    exact h.states
  · rw [hfw]
    exact h.flushed
  · rw [hfw]
    exact h.notCanceled
  · rw [hcom]
    exact h.uncommitted
  · rw [hfw]
    exact h.fresh

/-- written to, -/
theorem writeChunks_ongoing (chunks : List (List Byte)) (hu : u.writer.fileWriter.unusable = none) :
    Ongoing s₀ ⟨u.store, u.writer.writeChunks chunks⟩ (bytes ++ chunks.flatten) ∧
      (u.writer.writeChunks chunks).fileWriter.unusable = none := by
  obtain ⟨hc, hheld, hin, hun, hcan, hcom⟩ := writeChunks_coherent chunks h.coherent hu
  refine ⟨⟨h.started, hc, ?_, ?_, ?_, ?_, ?_, h.blobs_eq, h.files_eq, ?_⟩, hun⟩
  · rw [hheld, h.held_eq]
  · rw [hin]
    exact h.states
  · intro hclosed
    rw [(unusable_eq_none.1 hun).1] at hclosed
    cases hclosed
  · rw [hcan]
    exact h.notCanceled
  · rw [hcom]
    exact h.uncommitted
  · rw [hin]
    exact h.fresh

/-- flushed, -/
theorem fileCommit_ongoing (hu : u.writer.fileWriter.unusable = none) :
    ∃ s₁ fw, u.writer.fileWriter.commit u.store = (s₁, .ok fw) ∧
      Ongoing s₀ ⟨s₁, { u.writer with fileWriter := fw }⟩ bytes := by
  obtain ⟨hl, hheld⟩ := flush_linked (n := u.writer.fileWriter.buffer.length) h.coherent.linked
  have hc := flush_coherent (n := u.writer.fileWriter.buffer.length) h.coherent
  have hst := flush_statesOk (n := u.writer.fileWriter.buffer.length) h.coherent.linked h.states
  refine ⟨_, _, by rw [FileWriter.commit, hu], ?_⟩
  refine ⟨h.started, ⟨{ hl with }, hc.written_le,
    hc.digester_eq⟩, hheld.trans h.held_eq, hst, fun _ => drop_length, h.notCanceled,
    h.uncommitted, h.blobs_eq, ?_, h.fresh⟩
  intro i hi
  have hne : i ≠ u.writer.fileWriter.inode := by
    have := h.fresh
    omega
  show (u.writer.fileWriter.flush u.store _).1.files i = _
  rw [flush_files h.coherent.linked, update_of_ne hne, h.files_eq i hi]

variable (hash) in
/-- and moved to the blobs. -/
theorem moveBlob_ongoing (hclosed : u.writer.fileWriter.closed = true) :
    ∃ s', u.store.moveBlob hash (digestOf hash .sha256 bytes) = .ok s' ∧
      ∃ i, s'.blobs (digestOf hash .sha256 bytes) = some i ∧
        (s'.files i = bytes ∨
          s₀.blobs (digestOf hash .sha256 bytes) = some i ∧ s'.files i = u.store.files i) := by
  have hfile : u.store.files u.writer.fileWriter.inode = bytes := by
    rw [← h.held_eq, held, h.flushed hclosed, append_nil]
  unfold Backend.moveBlob
  cases hblob : u.store.blobs (digestOf hash .sha256 bytes) with
  | some i =>
    rw [if_pos (show (some i).isSome = true from rfl)]
    exact ⟨_, rfl, i, hblob, .inr ⟨h.blobs_eq ▸ hblob, rfl⟩⟩
  | none =>
    rw [if_neg (by simp)]
    rcases h.coherent.linked.place with ⟨_, hd⟩ | ⟨_, hd, hf⟩
    · rw [hd]
      exact ⟨_, rfl, _, update_self .., .inl hfile⟩
    · rw [hd]
      have hempty : bytes = [] := hfile ▸ hf
      subst hempty
      rw [if_pos rfl]
      exact ⟨_, rfl, _, update_self .., .inl (update_self ..)⟩

end

variable (hash) in
/-- **What a commit does**: on a usable instance it succeeds for a digest of the bytes received and
ends the upload; otherwise the upload goes on, closed. -/
theorem commit_ongoing (h : Ongoing s₀ u bytes) (hu : u.writer.fileWriter.unusable = none) :
    ∃ s' bw' r, u.writer.commit hash u.store d = (s', bw', r) ∧
      bw'.fileWriter.closed = true ∧
      if d = digestOf hash d.algorithm bytes then
        r = .ok ⟨digestOf hash .sha256 bytes, bytes.length⟩ ∧ s'.startedAt = false ∧
          ∃ i, s'.blobs (digestOf hash .sha256 bytes) = some i ∧
            (s'.files i = bytes ∨
              s₀.blobs (digestOf hash .sha256 bytes) = some i ∧
                (i < s₀.next → s'.files i = s₀.files i))
      else (∃ e, r = .error e) ∧ Ongoing s₀ ⟨s', bw'⟩ bytes := by
  obtain ⟨s₁, fw, hcommit, h₁⟩ := fileCommit_ongoing h hu
  obtain ⟨h₂, hclosed⟩ := close_ongoing h₁
  have hbuf := h₂.flushed hclosed
  have hcontent : ({ u.writer with fileWriter := fw }.close s₁).1.content = bytes := by
    rw [h₂.coherent.linked.content_eq, ← h₂.held_eq, held, hbuf, append_nil]
  have hvalid := validateBlob_eq hash d h₂.coherent h₂.statesOk hbuf
  simp only [hcontent] at hvalid
  unfold BlobWriter.commit
  rw [hcommit]
  simp only
  rw [hvalid]
  have hfw := resumeDigest_frame ({ u.writer with fileWriter := fw }.close s₁).1
    ({ u.writer with fileWriter := fw }.close s₁).2
  by_cases hd : d = digestOf hash d.algorithm bytes
  · rw [if_pos hd]
    obtain ⟨s', hmove, i, hi, hfile⟩ := moveBlob_ongoing hash h₂ hclosed
    simp only [hmove]
    refine ⟨_, _, _, rfl, by rw [← hclosed, ← hfw.1], ?_⟩
    rw [if_pos hd]
    refine ⟨rfl, rfl, i, hi, hfile.imp id fun ⟨hold, hsame⟩ => ⟨hold, fun hlt => ?_⟩⟩
    exact hsame.trans (h₂.files_eq i hlt)
  · rw [if_neg hd]
    refine ⟨_, _, _, rfl, by rw [← hclosed, ← hfw.1], ?_⟩
    rw [if_neg hd]
    exact ⟨⟨_, rfl⟩, resumeDigest_ongoing h₂⟩

/-- The upload goes on, or it has ended and its last instance is closed. -/
def Tracked (s₀ : Backend) (u : Upload) (bytes : List Byte) : Prop :=
  Ongoing s₀ u bytes ∧
      (u.writer.fileWriter.unusable = none ∨ u.writer.fileWriter.closed = true) ∨
    u.store.startedAt = false ∧ u.writer.fileWriter.closed = true

variable (s₀) in
/-- A new instance has its content. -/
theorem newBlobUpload_ongoing {s} (h : Placed s) (hstart : s.startedAt = true)
    (hcontent : s.content = bytes) (hst : StatesOk s bytes) (hblobs : s.blobs = s₀.blobs)
    (hfiles : ∀ i < s₀.next, s.files i = s₀.files i) (hnext : s₀.next ≤ s.next)
    (hdata : ∀ i, s.data = some i → s₀.next ≤ i) (enabled : Bool) :
    Ongoing s₀ ⟨(newBlobUpload s enabled).1, (newBlobUpload s enabled).2⟩ bytes := by
  obtain ⟨hl, hfile, hbuf⟩ := openFile_linked h
  obtain ⟨hblobs', hstates', hstart', hfiles', hun, hin⟩ := openFile_frame (s := s)
  refine ⟨hstart'.trans hstart, newBlobUpload_coherent h enabled, ?_, ?_, ?_, ?_, rfl,
    hblobs'.trans hblobs, ?_, ?_⟩
  · show (openFile s).1.files (openFile s).2.inode ++ (openFile s).2.buffer = bytes
    rw [hfile, hbuf, append_nil, hcontent]
  · show StatesOk (openFile s).1 ((openFile s).1.files (openFile s).2.inode)
    rw [hfile, hcontent]
    intro o state ho
    rw [hstates'] at ho
    exact hst o state ho
  · exact fun _ => hbuf
  · exact (unusable_eq_none.1 hun).2.2
  · intro i hi
    exact (hfiles' i (Nat.lt_of_lt_of_le hi hnext)).trans (hfiles i hi)
  · rcases hin with hd | hn
    · exact hdata _ hd
    · show s₀.next ≤ (openFile s).2.inode
      rw [hn]
      exact hnext

/-- A new upload has no bytes. -/
theorem create_tracked (hblobs : ∀ d i, s₀.blobs d = some i → i < s₀.next) (enabled : Bool) :
    Tracked s₀ (Upload.create s₀ enabled) [] := by
  have hplaced : Placed { s₀ with
      data := none, startedAt := true, hashStates := fun _ => none } :=
    ⟨hblobs, nofun, nofun⟩
  have hon : Ongoing s₀ (Upload.create s₀ enabled) [] :=
    newBlobUpload_ongoing s₀ hplaced rfl rfl nofun rfl
      (fun _ _ => rfl) (Nat.le_refl s₀.next) nofun enabled
  exact .inl ⟨hon, .inl openFile_frame.2.2.2.2.1⟩

/-- INTERNAL: an upload is resumed. -/
theorem resume_tracked (hblobs : ∀ d i, s₀.blobs d = some i → i < s₀.next)
    (h : Ongoing s₀ u bytes) (hclosed : u.writer.fileWriter.closed = true) (enabled : Bool) :
    Tracked s₀ ⟨(newBlobUpload u.store enabled).1, (newBlobUpload u.store enabled).2⟩ bytes := by
  have hfile : u.store.files u.writer.fileWriter.inode = bytes := by
    rw [← h.held_eq, held, h.flushed hclosed, append_nil]
  have hnext : s₀.next ≤ u.store.next := by
    have := h.fresh
    have := h.coherent.linked.allocated
    omega
  have hdata : ∀ i, u.store.data = some i → i = u.writer.fileWriter.inode := by
    intro i hi
    rcases h.coherent.linked.place with ⟨_, hd⟩ | ⟨_, hd, _⟩
    · rw [hd] at hi
      exact (Option.some.inj hi).symm
    · rw [hd] at hi
      cases hi
  have hplaced : Placed u.store := by
    refine ⟨fun d i hi => ?_, fun i hi => ?_, fun d i hi => ?_⟩
    · rw [h.blobs_eq] at hi
      exact Nat.lt_of_lt_of_le (hblobs d i hi) hnext
    · rw [hdata i hi]
      exact h.coherent.linked.allocated
    · rw [hdata i hi]
      exact h.coherent.linked.free d
  refine .inl ⟨newBlobUpload_ongoing s₀ hplaced h.started ?_ (hfile ▸ h.states) h.blobs_eq
    h.files_eq hnext (fun i hi => hdata i hi ▸ h.fresh) enabled, .inl openFile_frame.2.2.2.2.1⟩
  rw [h.coherent.linked.content_eq, hfile]

/-- INTERNAL: chunks are written. -/
theorem chunks_tracked (h : Tracked s₀ u bytes) (chunks : List (List Byte)) :
    Tracked s₀ ⟨u.store, (u.writer.resumeDigest u.store).1.writeChunks chunks⟩
      (bytes ++ if u.writer.fileWriter.unusable.isNone then chunks.flatten else []) := by
  have hfw := (resumeDigest_frame u.store u.writer).1
  cases hu : u.writer.fileWriter.unusable with
  | none =>
    rw [if_pos Option.isNone_none]
    rcases h with ⟨h, _⟩ | ⟨_, hclosed⟩
    · obtain ⟨hon, hun⟩ := writeChunks_ongoing (resumeDigest_ongoing h) chunks
        (show (u.writer.resumeDigest u.store).1.fileWriter.unusable = none by rw [hfw, hu])
      exact .inl ⟨hon, .inl hun⟩
    · rw [(unusable_eq_none.1 hu).1] at hclosed
      cases hclosed
  | some e =>
    rw [if_neg (by simp), append_nil, writeChunks_unusable (by rw [hfw, hu]; simp)]
    rcases h with ⟨h, hor⟩ | ⟨hstart, hclosed⟩
    · exact .inl ⟨resumeDigest_ongoing h, by rw [hfw]; exact hor⟩
    · exact .inr ⟨hstart, by rw [hfw]; exact hclosed⟩

variable (hash) in
/-- **A call keeps track of the bytes received.** -/
theorem exec_tracked (hblobs : ∀ d i, s₀.blobs d = some i → i < s₀.next)
    (h : Tracked s₀ u bytes) {c} (hc : exec hash u c = some u') :
    Tracked s₀ u' (bytes ++ c.received u) := by
  cases c with
  | write p =>
    cases hc
    have hchunk := chunks_tracked h [p]
    rwa [flatten_singleton] at hchunk
  | readFrom chunks =>
    cases hc
    exact chunks_tracked h chunks
  | close =>
    cases hc
    rw [Call.received, append_nil]
    rcases h with ⟨h, _⟩ | ⟨hstart, hclosed⟩
    · obtain ⟨hon, hclosed⟩ := close_ongoing h
      exact .inl ⟨hon, .inr hclosed⟩
    right
    unfold BlobWriter.close
    split
    · exact ⟨hstart, hclosed⟩
    · rw [closeFile_gone (.inl hclosed)]
      exact ⟨(storeHashState_frame u.store u.writer).2.2.2.2.trans hstart, hclosed⟩
  | resume enabled =>
    rw [Call.received, append_nil]
    simp only [exec] at hc
    split at hc
    · next hclosed =>
      unfold Backend.resume at hc
      rcases h with ⟨h, _⟩ | ⟨hstart, _⟩
      · rw [if_pos h.started] at hc
        cases hc
        exact resume_tracked hblobs h hclosed enabled
      · rw [if_neg (by simp [hstart])] at hc
        cases hc
        exact .inr ⟨hstart, hclosed⟩
    · cases hc
  | commit d =>
    cases hc
    rw [Call.received, append_nil]
    cases hu : u.writer.fileWriter.unusable with
    | some e =>
      have hcommit : u.writer.commit hash u.store d =
          (u.store, u.writer, .error (.writer e)) := by
        simp [BlobWriter.commit, FileWriter.commit, hu]
      rw [hcommit]
      exact h
    | none =>
      rcases h with ⟨h, _⟩ | ⟨_, hclosed⟩
      · obtain ⟨s', bw', r, hcommit, hclosed, hres⟩ := commit_ongoing (d := d) hash h hu
        rw [hcommit]
        by_cases hd : d = digestOf hash d.algorithm bytes
        · rw [if_pos hd] at hres
          exact .inr ⟨hres.2.1, hclosed⟩
        · rw [if_neg hd] at hres
          exact .inl ⟨hres.2, .inr hclosed⟩
      · rw [(unusable_eq_none.1 hu).1] at hclosed
        cases hclosed

variable (hash) in
/-- A whole run keeps track. -/
theorem run_tracked (hblobs : ∀ d i, s₀.blobs d = some i → i < s₀.next) {calls}
    (h : Tracked s₀ u bytes) (hrun : run (exec hash) u calls = some u') :
    Tracked s₀ u' (bytes ++ received hash u calls) := by
  induction calls generalizing u bytes with
  | nil =>
    cases hrun
    rw [received, append_nil]
    exact h
  | cons c cs ih =>
    simp only [run, Option.bind_eq_some_iff] at hrun
    obtain ⟨u₁, hc, hcs⟩ := hrun
    rw [received, hc, Option.map_some, Option.getD_some, ← append_assoc]
    exact ih (exec_tracked hash hblobs h hc) hcs

end Calls

/-! ## Commits -/

/-- **A commit succeeds exactly for a digest of all bytes received**, however they were split over
calls and instances, with or without hash states. The data file of the canonical digest then holds
the bytes. The instance has to be open: one that is closed, canceled or committed refuses.
`hsame` is for a digest that is stored already: `moveBlob` keeps its file, which holds the same
bytes unless the hash collides. blobwriter.go:60-353, blobwriter_resumable.go:18-144 -/
theorem commit_succeeds_iff {s₀ : Backend} {enabled : Bool} {calls : List Call} {u : Upload}
    (hblobs : ∀ d i, s₀.blobs d = some i → i < s₀.next)
    (hrun : run (exec hash) (Upload.create s₀ enabled) calls = some u)
    (hsame : ∀ i, s₀.blobs (digestOf hash .sha256
        (received hash (Upload.create s₀ enabled) calls)) = some i →
      s₀.files i = received hash (Upload.create s₀ enabled) calls) (d : Digest) :
    ((∃ desc, (u.writer.commit hash u.store d).2.2 = .ok desc) ↔
        u.writer.fileWriter.unusable = none ∧
          d = digestOf hash d.algorithm (received hash (Upload.create s₀ enabled) calls)) ∧
      ∀ desc, (u.writer.commit hash u.store d).2.2 = .ok desc →
        desc = ⟨digestOf hash .sha256 (received hash (Upload.create s₀ enabled) calls),
            (received hash (Upload.create s₀ enabled) calls).length⟩ ∧
          ∃ i, (u.writer.commit hash u.store d).1.blobs desc.digest = some i ∧
            (u.writer.commit hash u.store d).1.files i =
              received hash (Upload.create s₀ enabled) calls := by
  have htrack := run_tracked hash hblobs (create_tracked hblobs enabled) hrun
  rw [nil_append] at htrack
  generalize received hash (Upload.create s₀ enabled) calls = bytes at htrack hsame ⊢
  cases hu : u.writer.fileWriter.unusable with
  | some e =>
    have hcommit : u.writer.commit hash u.store d = (u.store, u.writer, .error (.writer e)) := by
      simp [BlobWriter.commit, FileWriter.commit, hu]
    rw [hcommit]
    exact ⟨⟨fun ⟨_, h⟩ => (by cases h), fun ⟨h, _⟩ => (by cases h)⟩, nofun⟩
  | none =>
    rcases htrack with ⟨h, _⟩ | ⟨_, hclosed⟩
    · obtain ⟨s', bw', r, hcommit, _, hres⟩ := commit_ongoing (d := d) hash h hu
      rw [hcommit]
      by_cases hd : d = digestOf hash d.algorithm bytes
      · rw [if_pos hd] at hres
        obtain ⟨rfl, _, i, hi, hfile⟩ := hres
        refine ⟨⟨fun _ => ⟨rfl, hd⟩, fun _ => ⟨_, rfl⟩⟩, fun desc hdesc => ?_⟩
        cases hdesc
        refine ⟨rfl, i, hi, ?_⟩
        rcases hfile with hfile | ⟨hold, hfile⟩
        · exact hfile
        · rw [hfile (hblobs _ i hold), hsame i hold]
      · rw [if_neg hd] at hres
        obtain ⟨⟨e, rfl⟩, _⟩ := hres
        exact ⟨⟨fun ⟨_, h⟩ => (by cases h), fun ⟨_, h⟩ => absurd h hd⟩, nofun⟩
    · rw [(unusable_eq_none.1 hu).1] at hclosed
      cases hclosed

/-- A hash for examples: digits to a base above the values of bytes, and the algorithm. -/
def sampleHash (a : Algorithm) (bytes : List Byte) : ℕ :=
  bytes.foldl (fun n b => 257 * n + b.toNat + 1) (if a = .sha256 then 0 else 1)

def noBlobs : Backend where
  files := fun _ => []
  next := 0
  data := none
  startedAt := false
  hashStates := fun _ => none
  blobs := fun _ => none
  lazy := false

/-- An upload that is resumed with and without states. -/
theorem commit_succeeds_resumed :
    ∃ u, run (exec sampleHash) (Upload.create noBlobs true) [.write [1, 2], .close, .resume false,
        .readFrom [[3], [4]], .close, .resume true, .write [5]] = some u ∧
      ∃ desc, (u.writer.commit sampleHash u.store
        (digestOf sampleHash .sha512 [1, 2, 3, 4, 5])).2.2 = .ok desc := by
  have hrun : ((run (exec sampleHash) (Upload.create noBlobs true) [.write [1, 2], .close,
      .resume false, .readFrom [[3], [4]], .close, .resume true, .write [5]]).any fun u =>
        decide (u.writer.fileWriter.unusable = none)) = true := by decide +kernel
  have hbytes : received sampleHash (Upload.create noBlobs true) [.write [1, 2], .close,
      .resume false, .readFrom [[3], [4]], .close, .resume true, .write [5]] =
        [1, 2, 3, 4, 5] := by decide +kernel
  obtain ⟨u, hu, husable⟩ := (Option.any_eq_true _ _).1 hrun
  refine ⟨u, hu, ?_⟩
  have hiff := (commit_succeeds_iff (fun d i h => (by cases h)) hu nofun
    (digestOf sampleHash .sha512 [1, 2, 3, 4, 5])).1
  rw [hbytes] at hiff
  exact hiff.2 ⟨of_decide_eq_true husable, rfl⟩

end ContainerRegistry.Analysis.Uploads
