import ContainerRegistry.Analysis.Uploads

/-!
# Writers of one upload side by side

Writers of one upload write to one file at positions of their own, also between the check of the
digest and the move of another. When an instance is resumed only after all others have ended, blobs
are addressed by content (`Addressed`, `SessionOk`).
-/

namespace ContainerRegistry.Analysis.Uploads

open Library Model.Uploads List Function
open Model (Algorithm Digest)

variable {hash : Algorithm → List Byte → ℕ} {s s' : Backend} {x x' : Session} {bw : BlobWriter}

/-! ## The invariant -/

/-- Every file of the blob store has the digest it is stored under. -/
def Addressed (hash : Algorithm → List Byte → ℕ) (s : Backend) : Prop :=
  ∀ d i, s.blobs d = some i → digestOf hash .sha256 (s.files i) = d

/-- The instance is coherent and saved states are sound for the bytes in `content`. -/
structure Steady (s : Backend) (bw : BlobWriter) (content : List Byte) : Prop where
  coherent : Coherent s bw
  states : StatesOk s content
  flushed : bw.fileWriter.closed = true → bw.fileWriter.buffer = []
  notCanceled : bw.fileWriter.canceled = false

/-- What holds of the last instance, by its stage. -/
def SessionOk (hash : Algorithm → List Byte → ℕ) (s : Backend) (x : Session) : Prop :=
  match s.startedAt, x.stage with
  | true, .ready => Steady s x.writer (s.files x.writer.fileWriter.inode)
  | true, .closing => Steady s x.writer (held s x.writer.fileWriter)
  | true, .flushed _ =>
    Steady s x.writer (s.files x.writer.fileWriter.inode) ∧ x.writer.fileWriter.buffer = []
  | true, .stored _ =>
    Steady s x.writer (held s x.writer.fileWriter) ∧ x.writer.fileWriter.buffer = []
  | true, .validating _ =>
    Steady s x.writer (s.files x.writer.fileWriter.inode) ∧ x.writer.fileWriter.closed = true
  | true, .moving c =>
    Steady s x.writer (s.files x.writer.fileWriter.inode) ∧ x.writer.fileWriter.closed = true ∧
      c = digestOf hash .sha256 s.content
  | true, .moved => x.writer.fileWriter.closed = true
  | true, .ended => StatesOk s s.content
  -- the upload is gone: its last instance can no longer reach the file
  | false, .ready => x.writer.fileWriter.closed = true ∨ x.writer.fileWriter.canceled = true
  | false, .closing => x.writer.fileWriter.closed = true ∨ x.writer.fileWriter.canceled = true
  | false, .ended => True
  | false, _ => False

/-- The storage is in order, and so is the last instance. -/
structure InOrder (hash : Algorithm → List Byte → ℕ) (s : Backend) (x : Session) : Prop where
  placed : Placed s
  addressed : Addressed hash s
  session : SessionOk hash s x

/-! ## Steps that leave the blobs alone -/

structure BlobsKept (s s' : Backend) : Prop where
  blobs_eq : s'.blobs = s.blobs
  next_eq : s'.next = s.next
  files_eq : ∀ d i, s.blobs d = some i → s'.files i = s.files i

/-- Blobs that are kept stay addressed. -/
theorem BlobsKept.addressed (h : BlobsKept s s') (ha : Addressed hash s) : Addressed hash s' := by
  intro d i hi
  rw [h.blobs_eq] at hi
  rw [h.files_eq d i hi]
  exact ha d i hi

/-- Nothing happens to the blobs. -/
theorem blobsKept_refl : BlobsKept s s := ⟨rfl, rfl, fun _ _ _ => rfl⟩

/-- The file of the upload is no blob. -/
theorem placed_of_linked (hblobs : ∀ d i, s.blobs d = some i → i < s.next)
    (h : Linked s bw.fileWriter) : Placed s := by
  have hdata : ∀ i, s.data = some i → i = bw.fileWriter.inode := by
    intro i hi
    rcases h.place with ⟨_, hd⟩ | ⟨_, hd, _⟩
    · rw [hd] at hi
      exact (Option.some.inj hi).symm
    · rw [hd] at hi
      cases hi
  refine ⟨hblobs, fun i hi => ?_, fun d i hi => ?_⟩
  · rw [hdata i hi]
    exact h.allocated
  · rw [hdata i hi]
    exact h.free d

/-- The buffer is written to that file. -/
theorem flush_blobsKept (h : Linked s bw.fileWriter) (n : ℕ) :
    BlobsKept s (bw.fileWriter.flush s n).1 := by
  refine ⟨rfl, rfl, fun d i hi => ?_⟩
  have hne : i ≠ bw.fileWriter.inode := fun heq => h.free d (heq ▸ hi)
  rw [flush_files h, update_of_ne hne]

/-- So it is on closing. -/
theorem closeFile_blobsKept (h : Linked s bw.fileWriter) : BlobsKept s (bw.closeFile s).1 := by
  obtain ⟨hblobs, hnext, _, hfiles⟩ := closeFile_frame h
  refine ⟨hblobs, hnext, fun d i hi => hfiles i fun heq => h.free d (heq ▸ hi)⟩

/-- A saved state is no blob. -/
theorem storeHashState_blobsKept : BlobsKept s (bw.storeHashState s) := by
  obtain ⟨hfiles, _, hnext, hblobs, _⟩ := storeHashState_frame s bw
  exact ⟨hblobs, hnext, fun d i _ => by rw [hfiles]⟩

/-- Order is kept while the blobs are. -/
theorem inOrder_of_linked (h : InOrder hash s x) (hk : BlobsKept s s')
    (hl : Linked s' x'.writer.fileWriter) (hx : SessionOk hash s' x') : InOrder hash s' x' := by
  refine ⟨placed_of_linked (fun d i hi => ?_) hl, hk.addressed h.addressed, hx⟩
  rw [hk.blobs_eq] at hi
  rw [hk.next_eq]
  exact h.placed.blobs_lt d i hi

/-- In particular between two calls. -/
theorem inOrder_of_steady (h : InOrder hash s x) (hk : BlobsKept s s') (hs : s'.startedAt = true)
    (hst : Steady s' bw (s'.files bw.fileWriter.inode)) : InOrder hash s' ⟨bw, .ready⟩ := by
  refine inOrder_of_linked h hk hst.coherent.linked ?_
  unfold SessionOk
  rw [hs]
  exact hst

/-! ## Parts of calls on a running upload -/

/-- The digester is restored. -/
theorem resumeDigest_steady {content} (h : Steady s bw content)
    (hst : StatesOk s (held s bw.fileWriter)) : Steady s (bw.resumeDigest s).1 content := by
  obtain ⟨hfw, _, _⟩ := resumeDigest_frame s bw
  exact ⟨(resumeDigest_coherent h.coherent hst).1, h.states, by rw [hfw]; exact h.flushed,
    by rw [hfw]; exact h.notCanceled⟩

/-- Its state is saved. -/
theorem storeHashState_steady (h : Steady s bw (s.files bw.fileWriter.inode)) :
    Steady (bw.storeHashState s) bw (held (bw.storeHashState s) bw.fileWriter) := by
  obtain ⟨hc, hst⟩ := storeHashState_sound h.coherent (h.states.append _)
  have hheld : held (bw.storeHashState s) bw.fileWriter = held s bw.fileWriter := by
    rw [held, held, (storeHashState_frame s bw).1]
  exact ⟨hc, hheld ▸ hst, h.flushed, h.notCanceled⟩

/-- The file is closed with all its bytes. -/
theorem closeFile_steady (h : Steady s bw (held s bw.fileWriter)) :
    Steady (bw.closeFile s).1 (bw.closeFile s).2
        ((bw.closeFile s).1.files (bw.closeFile s).2.fileWriter.inode) ∧
      (bw.closeFile s).2.fileWriter.closed = true := by
  obtain ⟨hc, hheld, hst, hclosed, hbuf, hcan, _, _⟩ :=
    closeFile_coherent h.coherent h.states h.flushed h.notCanceled
  have hall : (bw.closeFile s).1.files (bw.closeFile s).2.fileWriter.inode =
      held s bw.fileWriter := by
    rw [← hheld, held, hbuf, append_nil]
  exact ⟨⟨hc, hall ▸ hst, fun _ => hbuf, hcan⟩, hclosed⟩

section

variable (h : Steady s bw (s.files bw.fileWriter.inode))
include h

/-- Chunks are written, if the writer is open. -/
theorem writeChunks_steady (chunks : List (List Byte)) :
    Steady s ((bw.resumeDigest s).1.writeChunks chunks)
      (s.files ((bw.resumeDigest s).1.writeChunks chunks).fileWriter.inode) := by
  have h' := resumeDigest_steady h (h.states.append _)
  have hfw := (resumeDigest_frame s bw).1
  by_cases hu : (bw.resumeDigest s).1.fileWriter.unusable = none
  · obtain ⟨hc, _, hin, hun, hcan, _⟩ := writeChunks_coherent chunks h'.coherent hu
    refine ⟨hc, ?_, ?_, ?_⟩
    · rw [hin, hfw]
      exact h.states
    · intro hclosed
      rw [(unusable_eq_none.1 hun).1] at hclosed
      cases hclosed
    · rw [hcan, hfw]
      exact h.notCanceled
  · rw [writeChunks_unusable hu]
    refine ⟨h'.coherent, ?_, h'.flushed, h'.notCanceled⟩
    rw [hfw]
    exact h.states

/-- The buffer is written. -/
theorem flush_steady (hu : bw.fileWriter.unusable = none) (n : ℕ) :
    Steady (bw.fileWriter.flush s n).1 { bw with fileWriter := (bw.fileWriter.flush s n).2 }
      ((bw.fileWriter.flush s n).1.files bw.fileWriter.inode) := by
  refine ⟨flush_coherent h.coherent, flush_statesOk h.coherent.linked h.states, ?_, h.notCanceled⟩
  intro hclosed
  have hopen := (unusable_eq_none.1 hu).1
  rw [show bw.fileWriter.closed = true from hclosed] at hopen
  cases hopen

/-- **The digest that is checked is that of the file.** -/
theorem validateBlob_canonical
    (hclosed : bw.fileWriter.closed = true) {d desc} (hv : bw.validateBlob hash s d = .ok desc) :
    desc.digest = digestOf hash .sha256 s.content := by
  rw [validateBlob_eq hash d h.coherent (h.states.append _) (h.flushed hclosed)] at hv
  split at hv
  · cases hv
    rfl
  · cases hv

end

/-- A path that is set, or was. -/
theorem update_eq_some {blobs : Digest → Option ℕ} {c d i j}
    (h : update blobs c (some i) d = some j) : d = c ∧ j = i ∨ blobs d = some j := by
  by_cases hd : d = c
  · subst hd
    rw [update_self] at h
    exact .inl ⟨rfl, (Option.some.inj h).symm⟩
  · rw [update_of_ne hd] at h
    exact .inr h

/-- INTERNAL: a file moved to the path of its digest is addressed. -/
theorem moveBlob_addressed (hp : Placed s) (ha : Addressed hash s)
    (h : s.moveBlob hash (digestOf hash .sha256 s.content) = .ok s') :
    Placed s' ∧ Addressed hash s' ∧ s'.startedAt = s.startedAt := by
  unfold Backend.moveBlob at h
  split at h
  · cases h
    exact ⟨hp, ha, rfl⟩
  split at h
  · next i hd =>
    have hcontent : s.content = s.files i := by rw [Backend.content, hd]
    cases h
    refine ⟨⟨fun d j hj => ?_, nofun, nofun⟩, fun d j hj => ?_, rfl⟩
    · rcases update_eq_some hj with ⟨_, rfl⟩ | hj
      · exact hp.data_lt j hd
      · exact hp.blobs_lt d j hj
    · rcases update_eq_some hj with ⟨rfl, rfl⟩ | hj
      · rw [hcontent]
      · exact ha d j hj
  · next hd =>
    split at h
    · next hempty =>
      cases h
      refine ⟨⟨fun d j hj => ?_, fun j hj => ?_, fun d j hj => ?_⟩, fun d j hj => ?_, rfl⟩
      · rcases update_eq_some hj with ⟨_, rfl⟩ | hj
        · exact Nat.lt_succ_self _
        · exact Nat.lt_succ_of_lt (hp.blobs_lt d j hj)
      · rw [hd] at hj
        cases hj
      · rw [hd] at hj
        cases hj
      · show digestOf hash .sha256 (update s.files s.next [] j) = d
        rcases update_eq_some hj with ⟨rfl, rfl⟩ | hj
        · rw [update_self, ← hempty]
        · rw [update_of_ne (Nat.ne_of_lt (hp.blobs_lt _ _ hj))]
          exact ha d j hj
    · cases h

/-- Nothing is left of the upload. -/
theorem removeResources_inOrder (hp : Placed s) (ha : Addressed hash s)
    (hx : x'.writer.fileWriter.closed = true ∨ x'.writer.fileWriter.canceled = true)
    (hstage : x'.stage = .ready) : InOrder hash s.removeResources x' := by
  refine ⟨⟨hp.blobs_lt, nofun, nofun⟩, ha, ?_⟩
  unfold SessionOk
  rw [hstage]
  exact hx

/-! ## Steps -/

/-- INTERNAL: a call goes on. -/
theorem advance_inOrder (hs : s.startedAt = true) (h : InOrder hash s x)
    (ha : advance hash s x = some (s', x')) : InOrder hash s' x' := by
  obtain ⟨bw, st⟩ := x
  have hx := h.session
  unfold SessionOk at hx
  rw [hs] at hx
  cases st with
  | ready => cases ha
  | closing =>
    cases ha
    have hstart := (closeFile_frame hx.coherent.linked).2.2.1.trans hs
    obtain ⟨hst, _⟩ := closeFile_steady hx
    exact inOrder_of_steady h (closeFile_blobsKept hx.coherent.linked) hstart hst
  | flushed d =>
    cases ha
    have hst := storeHashState_steady hx.1
    refine inOrder_of_linked h storeHashState_blobsKept hst.coherent.linked ?_
    unfold SessionOk
    rw [(storeHashState_frame s bw).2.2.2.2, hs]
    exact ⟨hst, hx.2⟩
  | stored d =>
    cases ha
    have hstart := (closeFile_frame hx.1.coherent.linked).2.2.1.trans hs
    obtain ⟨hst, hclosed⟩ := closeFile_steady hx.1
    refine inOrder_of_linked h (closeFile_blobsKept hx.1.coherent.linked) hst.coherent.linked ?_
    unfold SessionOk
    rw [hstart]
    exact ⟨hst, hclosed⟩
  | validating d =>
    have hfw := (resumeDigest_frame s bw).1
    have hst : Steady s (bw.resumeDigest s).1
        (s.files (bw.resumeDigest s).1.fileWriter.inode) := by
      rw [hfw]
      exact resumeDigest_steady hx.1 (hx.1.states.append _)
    unfold advance at ha
    simp only at ha
    split at ha
    · cases ha
      exact inOrder_of_steady h blobsKept_refl hs hst
    next desc hv =>
    cases ha
    refine inOrder_of_linked h blobsKept_refl hst.coherent.linked ?_
    unfold SessionOk
    rw [hs]
    exact ⟨hst, by rw [hfw]; exact hx.2, validateBlob_canonical hx.1 hx.2 hv⟩
  | moving c =>
    obtain ⟨hst, hclosed, rfl⟩ := hx
    unfold advance at ha
    simp only at ha
    split at ha
    · cases ha
      exact inOrder_of_steady h blobsKept_refl hs hst
    next hmove =>
    cases ha
    obtain ⟨hp, haddr, hstart⟩ := moveBlob_addressed h.placed h.addressed hmove
    refine ⟨hp, haddr, ?_⟩
    unfold SessionOk
    rw [hstart, hs]
    exact hclosed
  | moved =>
    cases ha
    exact removeResources_inOrder h.placed h.addressed (.inl hx) rfl
  | ended => cases ha

variable {a : Action}

/-- INTERNAL: a call is made. -/
theorem startCall_inOrder (hs : s.startedAt = true) (h : InOrder hash s x)
    (hready : x.stage = .ready) (ha : startCall s x a = some (s', x')) : InOrder hash s' x' := by
  obtain ⟨bw, st⟩ := x
  cases hready
  have hx := h.session
  simp only [SessionOk, hs] at hx
  have hwrite : ∀ chunks, InOrder hash s ⟨(bw.resumeDigest s).1.writeChunks chunks, .ready⟩ := by
    intro chunks
    exact inOrder_of_steady h blobsKept_refl hs (writeChunks_steady hx chunks)
  cases a with
  | resume enabled | advance k => cases ha
  | write | readFrom =>
    cases ha
    exact hwrite _
  | flush k n =>
    simp only [startCall] at ha
    split at ha
    · next hu =>
      cases ha
      have hst := flush_steady hx (Option.isNone_iff_eq_none.1 hu) n
      exact inOrder_of_steady h (flush_blobsKept hx.coherent.linked n) hs hst
    · cases ha
  | close k =>
    simp only [startCall] at ha
    split at ha
    · cases ha
      exact h
    cases ha
    have hst := storeHashState_steady hx
    refine inOrder_of_linked h storeHashState_blobsKept hst.coherent.linked ?_
    unfold SessionOk
    rw [(storeHashState_frame s bw).2.2.2.2, hs]
    exact hst
  | commit k d =>
    simp only [startCall] at ha
    cases hu : bw.fileWriter.unusable with
    | some e =>
      rw [FileWriter.commit, hu] at ha
      cases ha
      exact h
    | none =>
      rw [FileWriter.commit, hu] at ha
      cases ha
      have hst := flush_steady hx hu bw.fileWriter.buffer.length
      have hk := flush_blobsKept hx.coherent.linked bw.fileWriter.buffer.length
      have hl := hst.coherent.linked
      refine inOrder_of_linked h hk { hl with } ?_
      unfold SessionOk
      rw [show (bw.fileWriter.flush s bw.fileWriter.buffer.length).1.startedAt = true from hs]
      exact ⟨⟨⟨{ hl with }, hst.coherent.written_le,
        hst.coherent.digester_eq⟩, hst.states, hst.flushed, hst.notCanceled⟩, drop_length⟩
  | cancel k =>
    cases ha
    unfold BlobWriter.cancel
    split
    · exact h
    have hgone : (s.data.isNone && !bw.fileWriter.unlinked) = false := by
      rcases hx.coherent.linked.place with ⟨_, hd⟩ | ⟨hu, _⟩
      · simp [hd]
      · simp [hu]
    rw [if_neg (by simp [hgone])]
    exact removeResources_inOrder h.placed h.addressed (.inr rfl) rfl
  | stop k =>
    cases ha
    refine ⟨h.placed, h.addressed, ?_⟩
    unfold SessionOk
    rw [hs]
    show StatesOk s s.content
    rw [hx.coherent.linked.content_eq]
    exact hx.states

/-- INTERNAL: a call is made after the upload has gone. -/
theorem gone_startCall_inOrder (hs : s.startedAt = false) (h : InOrder hash s x)
    (hready : x.stage = .ready) (ha : startCall s x a = some (s', x')) : InOrder hash s' x' := by
  obtain ⟨bw, st⟩ := x
  cases hready
  have hx := h.session
  simp only [SessionOk, hs] at hx
  have hunusable : bw.fileWriter.unusable ≠ none := by
    intro hu
    obtain ⟨hopen, _, hcan⟩ := unusable_eq_none.1 hu
    rw [hopen, hcan] at hx
    simp at hx
  have hsame : ∀ {bw' st'}, SessionOk hash s ⟨bw', st'⟩ → InOrder hash s ⟨bw', st'⟩ :=
    fun hx' => ⟨h.placed, h.addressed, hx'⟩
  have hwrite : ∀ chunks, InOrder hash s ⟨(bw.resumeDigest s).1.writeChunks chunks, .ready⟩ := by
    intro chunks
    have hfw := (resumeDigest_frame s bw).1
    rw [writeChunks_unusable (by rw [hfw]; exact hunusable)]
    apply hsame
    unfold SessionOk
    rw [hs]
    show (bw.resumeDigest s).1.fileWriter.closed = true ∨ _
    rw [hfw]
    exact hx
  cases a with
  | resume enabled | advance k => cases ha
  | write | readFrom =>
    cases ha
    exact hwrite _
  | flush k n =>
    simp only [startCall] at ha
    split at ha
    · next hu => exact absurd (Option.isNone_iff_eq_none.1 hu) hunusable
    · cases ha
  | close k =>
    simp only [startCall] at ha
    split at ha
    · cases ha
      exact h
    cases ha
    obtain ⟨_, hdata, hnext, hblobs, hstart⟩ := storeHashState_frame s bw
    refine ⟨⟨?_, ?_, ?_⟩, storeHashState_blobsKept.addressed h.addressed, ?_⟩
    · rw [hblobs, hnext]
      exact h.placed.blobs_lt
    · rw [hdata, hnext]
      exact h.placed.data_lt
    · rw [hdata, hblobs]
      exact h.placed.apart
    · unfold SessionOk
      rw [hstart, hs]
      exact hx
  | commit k d =>
    simp only [startCall] at ha
    cases hu : bw.fileWriter.unusable with
    | some e =>
      rw [FileWriter.commit, hu] at ha
      cases ha
      exact h
    | none => exact absurd hu hunusable
  | cancel k =>
    cases ha
    unfold BlobWriter.cancel
    split
    · exact h
    split
    · apply hsame
      unfold SessionOk
      rw [hs]
      exact .inr rfl
    · exact removeResources_inOrder h.placed h.addressed (.inr rfl) rfl
  | stop k =>
    cases ha
    apply hsame
    unfold SessionOk
    rw [hs]
    trivial

/-- INTERNAL: one goes on after that. -/
theorem gone_advance_inOrder (hs : s.startedAt = false) (h : InOrder hash s x)
    (ha : advance hash s x = some (s', x')) : InOrder hash s' x' := by
  obtain ⟨bw, st⟩ := x
  have hx := h.session
  unfold SessionOk at hx
  rw [hs] at hx
  cases st with
  | ready => cases ha
  | closing =>
    cases ha
    rw [closeFile_gone hx]
    refine ⟨h.placed, h.addressed, ?_⟩
    unfold SessionOk
    rw [hs]
    exact hx
  | flushed d | stored d | validating d | moving c | moved => exact absurd hx id
  | ended => cases ha

/-- **Every step of the last instance keeps order.** -/
theorem session_inOrder (h : InOrder hash s x) (ha : x.step hash s a = some (s', x')) :
    InOrder hash s' x' := by
  unfold Session.step at ha
  split at ha
  · next hready =>
    cases hs : s.startedAt with
    | false => exact gone_startCall_inOrder hs h hready ha
    | true => exact startCall_inOrder hs h hready ha
  · split at ha
    · cases hs : s.startedAt with
      | false => exact gone_advance_inOrder hs h ha
      | true => exact advance_inOrder hs h ha
    · cases ha

/-! ## Runs -/

/-- An instance is resumed only when all others have ended. -/
def Exclusive (u : System) : Action → Prop
  | .resume _ => ∀ x ∈ u.sessions, x.stage = .ended
  | _ => True

instance (u : System) (a : Action) : Decidable (Exclusive u a) := by
  cases a <;> dsimp only [Exclusive] <;> infer_instance

/-- All instances but the last have ended, and the last one is in order. -/
def OneWriter (hash : Algorithm → List Byte → ℕ) (u : System) : Prop :=
  ∃ olds x, u.sessions = olds ++ [x] ∧ (∀ y ∈ olds, y.stage = .ended) ∧ InOrder hash u.store x

/-- A new instance starts in order. -/
theorem newBlobUpload_inOrder (hp : Placed s) (ha : Addressed hash s) (hs : s.startedAt = true)
    (hst : StatesOk s s.content) (enabled : Bool) :
    InOrder hash (newBlobUpload s enabled).1 ⟨(newBlobUpload s enabled).2, .ready⟩ := by
  obtain ⟨hl, hfile, hbuf⟩ := openFile_linked hp
  obtain ⟨hblobs, hstates, hstart, hfiles, hun, _⟩ := openFile_frame (s := s)
  have hc := newBlobUpload_coherent hp enabled
  refine ⟨placed_of_linked (fun d i hi => ?_) hc.linked, fun d i hi => ?_, ?_⟩
  · have hlt := hp.blobs_lt d i (hblobs ▸ hi)
    have hnext : s.next ≤ (openFile s).1.next := by
      unfold openFile
      cases s.data with
      | none => exact Nat.le_succ _
      | some i => exact Nat.le_refl _
    exact Nat.lt_of_lt_of_le hlt hnext
  · have hi' : s.blobs d = some i := hblobs ▸ hi
    show digestOf hash .sha256 ((openFile s).1.files i) = d
    rw [hfiles i (hp.blobs_lt d i hi')]
    exact ha d i hi'
  · unfold SessionOk
    rw [show (newBlobUpload s enabled).1.startedAt = true from hstart.trans hs]
    refine ⟨hc, ?_, fun _ => hbuf, (unusable_eq_none.1 hun).2.2⟩
    show StatesOk (openFile s).1 ((openFile s).1.files (openFile s).2.inode)
    rw [hfile]
    intro o state ho
    rw [hstates] at ho
    exact hst o state ho

/-- One instance runs at a time. -/
theorem step_oneWriter {u u'} (h : OneWriter hash u) (hex : Exclusive u a)
    (ha : step hash u a = some u') : OneWriter hash u' := by
  obtain ⟨olds, x, hsessions, holds, hx⟩ := h
  unfold step at ha
  cases hk : a.session with
  | none =>
    cases a with
    | resume enabled =>
      rw [hk] at ha
      obtain ⟨r, hr, rfl⟩ := Option.map_eq_some_iff.1 ha
      unfold Backend.resume at hr
      split at hr
      · next hs =>
        cases hr
        have hall : ∀ y ∈ u.sessions, y.stage = .ended := hex
        have hended : x.stage = .ended := hall x (by rw [hsessions]; simp)
        have hst : StatesOk u.store u.store.content := by
          have hok := hx.session
          unfold SessionOk at hok
          rw [hs, hended] at hok
          exact hok
        exact ⟨u.sessions, _, rfl, hall,
          newBlobUpload_inOrder hx.placed hx.addressed hs hst enabled⟩
      · cases hr
    | _ => cases hk
  | some k =>
    rw [hk] at ha
    obtain ⟨y, hy, hstep⟩ := Option.bind_eq_some_iff.1 ha
    obtain ⟨⟨s', y'⟩, hr, rfl⟩ := Option.map_eq_some_iff.1 hstep
    rw [hsessions] at hy
    by_cases hlt : k < olds.length
    · -- an instance that has ended takes no step
      rw [List.getElem?_append_left hlt] at hy
      have hended := holds y (mem_of_getElem? hy)
      unfold Session.step at hr
      rw [if_neg (by rw [hended]; simp)] at hr
      split at hr
      · rw [advance, hended] at hr
        cases hr
      · cases hr
    · have hk' : k = olds.length := by
        have hlen := (List.getElem?_eq_some_iff.1 hy).1
        rw [length_append, length_singleton] at hlen
        omega
      subst hk'
      rw [List.getElem?_append_right (Nat.le_refl _), Nat.sub_self] at hy
      cases hy
      refine ⟨olds, y', ?_, holds, session_inOrder hx hr⟩
      show u.sessions.set olds.length y' = olds ++ [y']
      rw [hsessions, set_append_right _ _ (Nat.le_refl _), Nat.sub_self]
      rfl

/-- **The blob store stays addressed by content** in every run that resumes an instance only after
all others have ended. blobwriter.go:156-353, blobwriter_resumable.go:18-144, blobupload.go:337-386
-/
theorem blobs_addressed {s₀ : Backend} {enabled : Bool} {u : System}
    (hblobs : ∀ d i, s₀.blobs d = some i → i < s₀.next) (h₀ : Addressed hash s₀)
    (h : Reach (step hash) Exclusive (System.create s₀ enabled) u) : Addressed hash u.store := by
  have hinv : OneWriter hash u := by
    refine Reach.invariant ?_ (fun u a u' _ hu hex ha => step_oneWriter hu hex ha) h
    have hplaced : Placed { s₀ with
        data := none, startedAt := true, hashStates := fun _ => none } :=
      ⟨hblobs, nofun, nofun⟩
    exact ⟨[], _, rfl, nofun, newBlobUpload_inOrder hplaced h₀ rfl nofun enabled⟩
  obtain ⟨olds, x, _, _, hx⟩ := hinv
  exact hx.addressed

/-- An upload that is written by two instances, one after the other. -/
theorem blobs_addressed_twice :
    ∃ u, Reach (step sampleHash) Exclusive (System.create noBlobs true) u ∧
      (u.store.blobs (digestOf sampleHash .sha256 [1, 2])).isSome = true ∧
      Addressed sampleHash u.store := by
  obtain ⟨u, hu, hblob⟩ : ∃ u, Reach (step sampleHash) Exclusive (System.create noBlobs true) u ∧
      (u.store.blobs (digestOf sampleHash .sha256 [1, 2])).isSome = true :=
    exists_reach [.write 0 [1], .close 0, .advance 0, .stop 0, .resume true, .write 1 [2],
      .commit 1 (digestOf sampleHash .sha256 [1, 2]), .advance 1, .advance 1, .advance 1,
      .advance 1, .advance 1] (by decide +kernel)
  exact ⟨u, hu, hblob, blobs_addressed (fun d i h => (by cases h)) (fun d i h => (by cases h)) hu⟩

/-- **Two instances poison the blob store.** After the digest of the first is checked, the second
writes its buffer over the bytes, and the first moves the file. -/
theorem poisoned_blob : Addressed sampleHash noBlobs ∧
    ∃ u, Reach (step sampleHash) (fun _ _ => True) (System.create noBlobs true) u ∧
      ¬ Addressed sampleHash u.store := by
  refine ⟨nofun, ?_⟩
  obtain ⟨u, hu, hbad⟩ : ∃ u,
      Reach (step sampleHash) (fun _ _ => True) (System.create noBlobs true) u ∧
        ((u.store.blobs (digestOf sampleHash .sha256 [1])).any fun i =>
          decide (digestOf sampleHash .sha256 (u.store.files i) ≠
            digestOf sampleHash .sha256 [1])) = true :=
    exists_reach [.resume true, .write 0 [1], .write 1 [2],
      .commit 0 (digestOf sampleHash .sha256 [1]), .advance 0, .advance 0, .advance 0,
      .flush 1 1, .advance 0] (by decide +kernel)
  refine ⟨u, hu, fun h => ?_⟩
  obtain ⟨i, hi, hne⟩ := (Option.any_eq_true _ _).1 hbad
  exact of_decide_eq_true hne (h _ i hi)

end ContainerRegistry.Analysis.Uploads
