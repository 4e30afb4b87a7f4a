import ContainerRegistry.Model.GcsUploads

/-!
# What the GCS writer leaves in the bucket

The session has the bytes before the offset and the buffer those after it (`Carries`). A chunk of
which nothing is acknowledged makes the driver panic; `Close` drops what the buffer has beyond
`minChunkSize`.
-/

namespace ContainerRegistry.Analysis.GcsUploads

open Library Model.GcsUploads List
open Library.Appender (Phase Outcome Ends)

variable {α : Type} {C : ℕ}

/-- The bytes of a session, and nothing if there is none yet. -/
def persisted (w : World α) : Option ℕ → Option (List α)
  | none => some []
  | some uri => w.session uri

/-- The bytes of the session and the buffer are the file. -/
def Carries (acc : List α) (w : World α) (sessionURI : Option ℕ) (offset : ℕ) (buffer : List α) :
    Prop :=
  ∃ bytes, persisted w sessionURI = some bytes ∧ bytes.length = offset ∧ bytes ++ buffer = acc

def Holding (acc : List α) (w : World α) : Prop :=
  Carries acc w w.writer.sessionURI w.writer.offset w.writer.buffer

def Acknowledged (w : World α) : Prop := ∀ k, w.replies.acks.head? = some (.part k) → 0 < k

/-! ## Chunks -/

theorem session_cons (w : World α) (uri : ℕ) (bytes : List α) :
    World.session { w with sessions := (uri, bytes) :: w.sessions } uri = some bytes := by
  simp [World.session]

variable {acc : List α} {w : World α}

/-- A session is started, or the request fails. -/
theorem startSession_eq (h : Holding acc w) :
    (∃ t uri, startSession w = (t, some uri) ∧ t.writer = { w.writer with sessionURI := some uri } ∧
        t.replies = w.replies ∧ t.object = w.object ∧ Holding acc t) ∨
      startSession w = (w, none) := by
  obtain ⟨bytes, hbytes, hlength, hacc⟩ := h
  unfold startSession
  cases huri : w.writer.sessionURI with
  | some uri => exact .inl ⟨w, uri, rfl, by rw [← huri], rfl, rfl, bytes, hbytes, hlength, hacc⟩
  | none =>
    rw [huri] at hbytes
    cases hbytes
    simp only
    split
    next =>
      exact .inl ⟨_, _, rfl, rfl, rfl, rfl, [], session_cons w w.serial [], hlength, hacc⟩
    next => exact .inr rfl

/-- A part of the chunk is acknowledged. -/
theorem putChunk_ends {uri bytes} (chunk : List α)
    (hsession : w.session uri = some bytes) (hne : chunk ≠ []) (hack : Acknowledged w) :
    Ends (fun t => ∃ n, t.2 = n ∧ 0 < n ∧ n ≤ chunk.length ∧
        t.1.session uri = some (bytes ++ chunk.take n) ∧ t.1.writer = w.writer ∧
        t.1.object = w.object ∧ t.1.replies.acks ⊆ w.replies.acks ∧
        t.1.replies.store = w.replies.store ∧
        (n = chunk.length ∨ ∃ k, w.replies.acks.head? = some (.part k) ∧ n = min k chunk.length))
      (fun e _ => e = .fault) (putChunk uri chunk bytes.length w) := by
  have hpos : 0 < chunk.length := length_pos_iff.2 hne
  unfold putChunk
  rw [hsession]
  simp only [ne_eq, not_true_eq_false, if_false]
  cases hacks : w.replies.acks with
  | nil =>
    refine ⟨chunk.length, rfl, hpos, Nat.le_refl _, ?_, rfl, rfl, by simp [hacks], rfl, .inl rfl⟩
    rw [session_cons, take_length]
  | cons ack rest =>
    cases ack with
    | fail => exact rfl
    | part k =>
      have hk : 0 < k := hack k (by rw [hacks]; rfl)
      have hlength : (chunk.take k).length = min k chunk.length := length_take
      simp only
      rw [if_neg (by omega)]
      refine ⟨(chunk.take k).length, rfl, by omega, by omega, ?_, rfl, rfl, by simp, rfl,
        .inr ⟨k, rfl, hlength⟩⟩
      have htake : chunk.take (chunk.take k).length = chunk.take k := by
        rw [hlength]
        simp [take_eq_take_iff]
      rw [htake]
      exact session_cons _ uri _

/-- What a chunk does to the writer: it moves bytes from the buffer to the session. -/
structure Moved (acc : List α) (w t : World α) : Prop where
  holding : Holding acc t
  closed : t.writer.closed = w.writer.closed
  object : t.object = w.object
  acks : t.replies.acks ⊆ w.replies.acks
  store : t.replies.store = w.replies.store
  shrinks : minChunkSize ≤ w.writer.buffer.length → t.writer.buffer.length < w.writer.buffer.length
  length_le : t.writer.buffer.length ≤ w.writer.buffer.length
  rest : (∀ k, w.replies.acks.head? = some (.part k) →
    w.writer.buffer.length ≤ k + minChunkSize) → t.writer.buffer.length ≤ minChunkSize

theorem Moved.refl (h : Holding acc w) (hsmall : w.writer.buffer.length < minChunkSize) :
    Moved acc w w where
  holding := h
  closed := rfl
  object := rfl
  acks := List.Subset.refl _
  store := rfl
  shrinks := fun hlarge => absurd hsmall (Nat.not_lt_of_le hlarge)
  length_le := Nat.le_refl _
  rest := fun _ => Nat.le_of_lt hsmall

/-- **A chunk moves bytes from the buffer to the session.** -/
theorem writeChunk_ends (h : Holding acc w) (hack : Acknowledged w) :
    Ends (Moved acc w) (fun e _ => e = .fault) (writeChunk w) := by
  have hmod := Nat.mod_lt w.writer.buffer.length (show 0 < minChunkSize by decide)
  have hle := Nat.mod_le w.writer.buffer.length minChunkSize
  unfold writeChunk
  simp only
  split
  next hzero => exact Moved.refl h (by omega)
  next hlarge =>
    rcases startSession_eq h with ⟨t, uri, heq, hwriter, hreplies, hobject, ht⟩ | heq
    · rw [heq]
      obtain ⟨bytes, hbytes, hlength, hacc⟩ := ht
      have hbuffer : t.writer.buffer = w.writer.buffer := by rw [hwriter]
      have huri : t.writer.sessionURI = some uri := by rw [hwriter]
      rw [huri] at hbytes
      have hack' : Acknowledged t := by
        unfold Acknowledged
        rw [hreplies]
        exact hack
      simp only [hbuffer] at hacc ⊢
      have hput := putChunk_ends (w.writer.buffer.take
        (w.writer.buffer.length - w.writer.buffer.length % minChunkSize)) hbytes
        (by simpa [take_eq_nil_iff] using ⟨hlarge, by
          intro hnil
          simp [hnil] at hlarge⟩) hack'
      rw [hlength] at hput
      rcases hput.elim with ⟨⟨t', n⟩, heq', _, rfl, hpos, hchunk, hsession, hwriter', hobject',
        hacks, hstore, hhow⟩ | ⟨t', e, heq', he⟩ <;> simp only [heq']
      · simp only at hpos hchunk hsession hwriter' hobject' hacks hstore hhow
        have hwithin := Nat.le_trans hchunk (length_take_le _ _)
        have hdrop : (t'.writer.buffer.drop n).length = w.writer.buffer.length - n := by
          rw [length_drop, hwriter', hbuffer]
        constructor
        case holding =>
          refine ⟨bytes ++ w.writer.buffer.take n, ?_, ?_, ?_⟩
          · have htake : (w.writer.buffer.take (w.writer.buffer.length -
                w.writer.buffer.length % minChunkSize)).take n = w.writer.buffer.take n := by
              rw [take_take, Nat.min_eq_left hwithin]
            rw [htake] at hsession
            simp only [hwriter', huri, persisted]
            exact hsession
          · simp only [length_append, length_take, hwriter', hlength]
            omega
          · simp only [hwriter', hbuffer]
            rw [append_assoc, take_append_drop, hacc]
        case closed => simp [hwriter', hwriter]
        case object => exact hobject'.trans hobject
        case acks =>
          rw [hreplies] at hacks
          exact hacks
        case store =>
          rw [hreplies] at hstore
          exact hstore
        case shrinks =>
          intro _
          simp only [hdrop]
          omega
        case length_le =>
          simp only [hdrop]
          omega
        case rest =>
          intro hrest
          simp only [hdrop]
          rw [hreplies, length_take] at hhow
          rcases hhow with hn | ⟨k, hk, hn⟩
          · omega
          · have hleft := hrest k hk
            omega
      · exact he
    · rw [heq]
      exact rfl

/-! ## The calls -/

def AllAcknowledged (w : World α) : Prop := ∀ k, .part k ∈ w.replies.acks → 0 < k

theorem AllAcknowledged.next (h : AllAcknowledged w) : Acknowledged w :=
  fun k hk => h k (List.mem_of_mem_head? hk)

/-- A writer between two rounds of `Write`. -/
structure Writing (C : ℕ) (acc : List α) (w : World α) : Prop where
  opened : w.writer.closed = false
  fits : w.writer.buffer.length ≤ C
  holding : Holding acc w

/-- **The loop of `Write` ends with everything taken**: each round takes something, or makes room
for it. -/
theorem writeLoop_ends (hC : 0 < C) (hmult : C % minChunkSize = 0) {fuel p acc}
    (hw : Writing C acc w) (hack : AllAcknowledged w) (hfuel : p.length ≤ fuel)
    (hroom : w.writer.buffer.length = C → p.length < fuel) :
    Ends (fun t => t.2 = [] ∧ Writing C (acc ++ p) t.1) (fun e _ => e = .fault)
      (writeLoop C fuel p w) := by
  have hmin : minChunkSize ≤ C := Nat.le_of_dvd hC (Nat.dvd_of_mod_eq_zero hmult)
  induction fuel generalizing p acc w with
  | zero =>
    rw [length_eq_zero_iff.1 (Nat.le_zero.1 hfuel), append_nil]
    exact ⟨rfl, hw⟩
  | succ fuel ih =>
    cases p with
    | nil =>
      rw [append_nil]
      exact ⟨rfl, hw⟩
    | cons x xs =>
      obtain ⟨hopen, hfits, bytes, hbytes, hlength, hacc⟩ := hw
      have htaken : Holding (acc ++ (x :: xs).take (C - w.writer.buffer.length)) { w with
          writer := { w.writer with
            buffer := w.writer.buffer ++ (x :: xs).take (C - w.writer.buffer.length) } } :=
        ⟨bytes, hbytes, hlength, by rw [← hacc, append_assoc]⟩
      have hsplit : acc ++ (x :: xs).take (C - w.writer.buffer.length) ++
          (x :: xs).drop (C - w.writer.buffer.length) = acc ++ x :: xs := by
        rw [append_assoc, take_append_drop]
      simp only [length_cons] at hfuel hroom
      rw [writeLoop]
      simp only
      rw [← hsplit]
      split
      next hfull =>
        rcases (writeChunk_ends htaken hack.next).elim with ⟨t, heq, hmoved⟩ | ⟨t, e, heq, he⟩ <;>
          simp only [heq]
        · have hless := hmoved.shrinks (by simp only [hfull]; exact hmin)
          simp only [hfull] at hless
          refine ih ⟨hmoved.closed.trans hopen, Nat.le_of_lt hless, hmoved.holding⟩
            (fun k hk => hack k (hmoved.acks hk)) ?_ ?_
          · simp only [length_drop, length_cons]
            omega
          · intro heq
            omega
        · exact he
      next hnot =>
        simp only [length_append, length_take, length_cons] at hnot
        refine ih ⟨hopen, ?_, htaken⟩ hack ?_ ?_
        · simp only [length_append, length_take, length_cons]
          omega
        · simp only [length_drop, length_cons]
          omega
        · intro heq
          simp only [length_append, length_take, length_cons] at heq
          omega

theorem write_ends (hC : 0 < C) (hmult : C % minChunkSize = 0) {p acc}
    (hw : Writing C acc w) (hack : AllAcknowledged w) :
    Ends (fun t => Writing C (acc ++ p.take t.2) t.1) (fun e _ => e = .fault) (write C p w) := by
  unfold write
  rw [if_neg (by simp [hw.opened])]
  rcases (writeLoop_ends hC hmult hw hack (Nat.le_succ p.length) (by omega)).elim with
    ⟨⟨t, _⟩, heq, rfl, hwriting⟩ | ⟨t, e, heq, he⟩ <;> simp only [heq]
  · simpa [Ends] using hwriting
  · exact he

def Stored (C : ℕ) : Phase → List α → World α → Prop
  | .absent, _, _ => True
  | .writing, acc, w => Writing C acc w
  | .closed, acc, w => ∃ o, w.object = some o ∧ o.contentType = .uploadSession ∧
    o.body.length ≤ C ∧ Carries acc w o.sessionURI o.offset o.body
  | .committed, acc, w => ∃ o, w.object = some o ∧ o.contentType = .octetStream ∧ o.body = acc

/-- The chunk that is put leaves no more than `minChunkSize` bytes. -/
def LeavesLittle (w : World α) : Prop :=
  ∀ k, w.replies.acks.head? = some (.part k) → 0 < k ∧ w.writer.buffer.length ≤ k + minChunkSize

/-- **`Close` leaves what has been written.** -/
theorem close_ends (hmin : minChunkSize ≤ C) (hw : Writing C acc w) (hlittle : LeavesLittle w) :
    Ends (Stored C .closed acc) (fun e _ => e = .fault) (close w) := by
  have hholding : Holding acc { w with writer := { w.writer with closed := true } } := hw.holding
  unfold close
  rw [if_neg (by simp [hw.opened])]
  rcases (writeChunk_ends hholding fun k hk => (hlittle k hk).1).elim with
    ⟨t, heq, hmoved⟩ | ⟨t, e, heq, he⟩ <;> simp only [heq]
  · have hrest := hmoved.rest fun k hk => (hlittle k hk).2
    have htake : t.writer.buffer.take minChunkSize = t.writer.buffer := take_of_length_le hrest
    unfold storeSession
    simp only [htake]
    split
    next =>
      obtain ⟨bytes, hbytes, hlength, hacc⟩ := hmoved.holding
      exact ⟨_, rfl, rfl, Nat.le_trans hrest hmin, bytes, hbytes, hlength, hacc⟩
    next => exact rfl
  · exact he

/-- **`Commit` makes it the object.** -/
theorem commit_ends (hw : Writing C acc w) :
    Ends (Stored C .committed acc) (fun e _ => e = .fault) (commit w) := by
  obtain ⟨hopen, -, bytes, hbytes, hlength, hacc⟩ := hw
  unfold commit
  rw [if_neg (by simp [hopen])]
  simp only
  cases huri : w.writer.sessionURI with
  | none =>
    rw [huri] at hbytes
    cases hbytes
    simp only
    split
    next => exact ⟨_, rfl, rfl, hacc⟩
    next => exact rfl
  | some uri =>
    rw [huri] at hbytes
    have hsession : ∀ writer : Writer α, World.session { w with writer } uri = some bytes :=
      fun _ => hbytes
    simp only [putLastChunk, hsession, hlength, ne_eq, not_true_eq_false, if_false]
    cases hstore : w.replies.store with
    | true => exact ⟨_, rfl, rfl, hacc⟩
    | false => exact rfl

/-- A closed file is reopened. -/
theorem reopenWriter_ends (hw : Stored C .closed acc w) :
    Ends (Stored C .writing acc) (fun e _ => e = .fault) (reopenWriter C w) := by
  obtain ⟨o, hobject, htype, hfits, bytes, hbytes, hlength, hacc⟩ := hw
  have htake : o.body.take C = o.body := take_of_length_le hfits
  unfold reopenWriter
  split
  next =>
    rw [hobject]
    simp only [htype, if_true, htake]
    exact ⟨rfl, hfits, bytes, hbytes, hlength, hacc⟩
  next => exact rfl

/-- Something is acknowledged, and at most `minChunkSize` of the `n` bytes in the buffer are not. -/
def Ack.suffices (n : ℕ) : Ack → Bool
  | .part k => 0 < k && n ≤ k + minChunkSize
  | .fail => true

/-- No call has failed before, something is acknowledged of each chunk, the chunk that `Close` puts
leaves at most `minChunkSize` bytes, and only a file that was closed is reopened. -/
def Admitted (s : Appender.State (World α) α Error) : Appender.Call α Replies → Prop
  | .reopen _ => s.outcome = .ok ∧ s.phase = .closed
  | .write r _ => s.outcome = .ok ∧ .part 0 ∉ r.acks
  | .close r => s.outcome = .ok ∧
    ∀ ack ∈ r.acks.head?, Ack.suffices s.world.writer.buffer.length ack = true
  | _ => s.outcome = .ok

/-- **Every admitted call leaves the file as it should be.** -/
theorem driver_respects (hC : 0 < C) (hmult : C % minChunkSize = 0) :
    Appender.Respects (driver C : Appender (World α) α Error Replies) Admitted (Stored C)
      (fun e _ => e = .fault) := by
  have hmin : minChunkSize ≤ C := Nat.le_of_dvd hC (Nat.dvd_of_mod_eq_zero hmult)
  constructor
  case calm =>
    intro s c hok
    cases c with
    | put | create | commit => exact hok
    | reopen | write | close => exact hok.1
  case put =>
    intro s r p _ _ _
    simp only [driver, putContent]
    split
    next => exact ⟨_, rfl, rfl, rfl⟩
    next => exact rfl
  case create =>
    intro s r _ _ _
    exact ⟨rfl, Nat.zero_le _, [], rfl, rfl, rfl⟩
  case reopen =>
    intro s r hok _ hstored
    rw [hok.2] at hstored
    exact reopenWriter_ends hstored
  case write =>
    intro s r p hok hstored
    have hack : AllAcknowledged { s.world with replies := r } :=
      fun k hk => Nat.pos_of_ne_zero fun hzero => hok.2 (hzero ▸ hk)
    exact write_ends hC hmult { hstored with } hack
  case close =>
    intro s r hok hstored
    have hlittle : LeavesLittle { s.world with replies := r } :=
      fun k hk => by simpa [Ack.suffices] using hok.2 _ hk
    exact close_ends hmin { hstored with } hlittle
  case commit =>
    intro s r _ hstored
    exact commit_ends { hstored with }

structure Intact (s : Appender.State (World α) α Error) : Prop where
  committed : s.outcome = .ok → s.phase = .committed →
    ∃ o, s.world.object = some o ∧ o.contentType = .octetStream ∧ o.body = s.accepted
  /-- No call panics, and a call only fails when a request does. -/
  calm : s.outcome = .ok ∨ s.outcome = .failed .fault

/-- **The file is what was written**, in every run of admitted calls and with every chunk size. -/
theorem gcs_writer_intact {chunkSize : ℕ} (hpos : 0 < chunkSize)
    (hmult : chunkSize % minChunkSize = 0) {object : Option (StoredObject α)}
    {s : Appender.State (World α) α Error}
    (h : Reach (Appender.step (driver chunkSize)) Admitted
      (Appender.start (World.empty object)) s) : Intact s := by
  have hstart : Stored chunkSize .absent [] (World.empty object) := trivial
  rcases ((driver_respects hpos hmult).holds_of_reach hstart h).elim with
    ⟨ho, hstored⟩ | ⟨e, ho, rfl⟩
  · refine ⟨fun _ hphase => ?_, .inl ho⟩
    rw [hphase] at hstored
    exact hstored
  · refine ⟨fun hok => ?_, .inr ho⟩
    cases ho.symm.trans hok

instance (s : Appender.State (World α) α Error) (c : Appender.Call α Replies) :
    Decidable (Admitted s c) := by
  cases c <;> dsimp only [Admitted] <;> infer_instance

def willing : Replies := ⟨true, [], true⟩

/-- A small file that is written in two pieces and reopened between them. -/
theorem gcs_writer_intact_reopened : ∃ s : Appender.State (World ℕ) ℕ Error,
    Reach (Appender.step (driver minChunkSize)) Admitted (Appender.start (World.empty none)) s ∧
      (s.phase = .committed ∧ s.accepted = [1, 2, 3]) ∧ Intact s := by
  obtain ⟨s, hreach, hs⟩ : ∃ s : Appender.State (World ℕ) ℕ Error,
      Reach (Appender.step (driver minChunkSize)) Admitted (Appender.start (World.empty none)) s ∧
        (s.phase = .committed ∧ s.accepted = [1, 2, 3]) :=
    exists_reach [.create willing, .write willing [1, 2], .close willing, .reopen willing,
      .write willing [3], .commit willing] (by decide +kernel)
  exact ⟨s, hreach, hs, gcs_writer_intact (by decide) (by decide) hreach⟩

/-! ## Chunks that are not acknowledged -/

variable {p : List α}

section

variable (hopen : w.writer.closed = false)
include hopen

theorem write_small (hbuffer : w.writer.buffer = []) (hp : p ≠ []) (hfits : p.length < C) :
    write C p w = (({ w with writer := { w.writer with buffer := p } }, p.length), .ok) := by
  obtain ⟨x, xs, rfl⟩ := exists_cons_of_ne_nil hp
  have htake : (x :: xs).take C = x :: xs := take_of_length_le (Nat.le_of_lt hfits)
  have hdrop : (x :: xs).drop C = [] := drop_of_length_le (Nat.le_of_lt hfits)
  rw [write, if_neg (by simp [hopen]), writeLoop]
  simp only [hbuffer, length_nil, Nat.sub_zero, nil_append, htake, hdrop]
  rw [if_neg (Nat.ne_of_lt hfits), writeLoop]
  rfl

/-- A first chunk that is not acknowledged at all. -/
theorem write_crashes (hbuffer : w.writer.buffer = [])
    (hp : p.length = minChunkSize) (huri : w.writer.sessionURI = none)
    (hoffset : w.writer.offset = 0) (hreplies : w.replies = ⟨true, [.part 0], true⟩) :
    (write minChunkSize p w).2 = .crashed := by
  have hpos : 0 < p.length := hp ▸ (by decide)
  obtain ⟨x, xs, rfl⟩ := exists_cons_of_ne_nil (length_pos_iff.1 hpos)
  have htake : (x :: xs).take minChunkSize = x :: xs := take_of_length_le (Nat.le_of_eq hp)
  have hsize : (x :: xs).length - (x :: xs).length % minChunkSize = minChunkSize := by
    rw [hp, Nat.mod_self, Nat.sub_zero]
  have hchunk : (writeChunk { w with writer := { w.writer with buffer := x :: xs } }).2 =
      .crashed := by
    simp only [writeChunk, hsize, startSession, huri, hreplies, putChunk, hoffset]
    simp [minChunkSize, World.session]
  rw [write, if_neg (by simp [hopen]), writeLoop]
  simp only [hbuffer, length_nil, Nat.sub_zero, nil_append, htake, hp, if_true]
  generalize writeChunk { w with writer := { w.writer with buffer := x :: xs } } = r at hchunk
  obtain ⟨t, o⟩ := r
  cases hchunk
  rfl

/-- A chunk of which a part is acknowledged on `Close`. -/
theorem close_clips (hbuffer : w.writer.buffer = p)
    (hp : p.length = 3 * minChunkSize) (huri : w.writer.sessionURI = none)
    (hoffset : w.writer.offset = 0) (hreplies : w.replies = ⟨true, [.part minChunkSize], true⟩) :
    ∃ t, close w = (t, .ok) ∧ t.session w.serial = some (p.take minChunkSize) ∧
      t.object = some ⟨.uploadSession, some w.serial, minChunkSize,
        (p.drop minChunkSize).take minChunkSize⟩ := by
  have hsize : p.length - p.length % minChunkSize = p.length := by
    rw [hp, Nat.mul_mod_left, Nat.sub_zero]
  have hlength : (p.take minChunkSize).length = minChunkSize := by
    rw [length_take, hp]
    simp [minChunkSize]
  have hne : p.length ≠ 0 := by
    rw [hp]
    decide
  have hpos : minChunkSize ≠ 0 := by decide
  rw [close, if_neg (by simp [hopen])]
  simp [writeChunk, hbuffer, hsize, startSession, huri, hreplies, putChunk, hoffset, hne,
    World.session, hlength, hpos, storeSession]

end

/-- INTERNAL: a closed file that is reopened and committed is what the session and the object
have. -/
theorem commit_reopenWriter {t : World α} {uri : ℕ} {bytes body : List α}
    (hsession : t.session uri = some bytes)
    (hobject : t.object = some ⟨.uploadSession, some uri, bytes.length, body⟩)
    (hfits : body.length ≤ C) : ∃ t₁, reopenWriter C { t with replies := willing } = (t₁, .ok) ∧
      ∃ t₂, commit { t₁ with replies := willing } = (t₂, .ok) ∧
      t₂.object = some ⟨.octetStream, none, 0, bytes ++ body⟩ := by
  have hkept : ∀ writer : Writer α, World.session { t with writer, replies := willing } uri =
      some bytes := fun _ => hsession
  have hreopen : reopenWriter C { t with replies := willing } = ({ t with
      writer := ⟨bytes.length + body.length, bytes.length, false, some uri, body⟩
      replies := willing }, .ok) := by
    simp [reopenWriter, willing, hobject, take_of_length_le hfits]
  refine ⟨_, hreopen, ?_⟩
  simp [commit, putLastChunk, hkept, show willing.store = true from rfl]

def fresh (r : Replies) : World α := ⟨none, [], 0, ⟨0, 0, false, none, []⟩, r⟩

theorem reach_fresh : Reach (Appender.step (driver C)) (fun _ _ => True)
    (Appender.start (World.empty none)) (⟨fresh willing, .writing, [], .ok⟩ :
      Appender.State (World α) α Error) :=
  Reach.init.next (a := .create willing) trivial rfl

theorem reach_after {s s₀ r t phase} (h : Reach (Appender.step (driver C)) (fun _ _ => True) s₀ s)
    (c : Appender.Call α Replies) (hstep : Appender.step (driver C) s c = some (s.after r phase p))
    (hr : r = (t, .ok)) : Reach (Appender.step (driver C)) (fun _ _ => True) s₀
      ⟨t, phase, p, .ok⟩ :=
  h.next trivial (by rw [hstep, hr]; rfl)

theorem exists_crash (hp : p.length = minChunkSize) :
    ∃ s : Appender.State (World α) α Error,
      Reach (Appender.step (driver minChunkSize)) (fun _ _ => True)
        (Appender.start (World.empty none)) s ∧ s.outcome = .crashed :=
  ⟨_, reach_fresh.next (a := .write ⟨true, [.part 0], true⟩ p) trivial rfl,
    write_crashes rfl rfl hp rfl rfl rfl⟩

/-- INTERNAL: when a third of the last chunk is acknowledged, another third is dropped. -/
theorem exists_loss (hp : p.length = 3 * minChunkSize) :
    ∃ (s : Appender.State (World α) α Error) (o : StoredObject α),
      Reach (Appender.step (driver (4 * minChunkSize))) (fun _ _ => True)
        (Appender.start (World.empty none)) s ∧ s.outcome = .ok ∧ s.phase = .committed ∧
        s.world.object = some o ∧ o.body.length < s.accepted.length := by
  have hne : p ≠ [] := by
    rintro rfl
    cases hp
  have hfits : p.length < 4 * minChunkSize := by
    rw [hp]
    decide
  have hwritten : Reach (Appender.step (driver (4 * minChunkSize))) (fun _ _ => True)
      (Appender.start (World.empty none)) (⟨{ (fresh willing : World α) with
        writer := ⟨0, 0, false, none, p⟩ }, .writing, p, .ok⟩ :
          Appender.State (World α) α Error) := by
    have hwrite := write_small (w := { (fresh willing : World α) with replies := willing })
      rfl rfl hne hfits
    refine reach_fresh.next (a := .write willing p) trivial ?_
    simp only [Appender.step, driver, if_true]
    rw [hwrite]
    simp [fresh]
  obtain ⟨t, hclose, hsession, hobject⟩ := close_clips
    (w := { (fresh ⟨true, [.part minChunkSize], true⟩ : World α) with
      writer := ⟨0, 0, false, none, p⟩ }) rfl rfl hp rfl rfl rfl
  have hclosed := reach_after hwritten (.close ⟨true, [.part minChunkSize], true⟩) rfl hclose
  have hbytes : (p.take minChunkSize).length = minChunkSize := by
    rw [length_take, hp]
    decide
  have hstored : t.object = some ⟨.uploadSession, some 0, (p.take minChunkSize).length,
      (p.drop minChunkSize).take minChunkSize⟩ := by
    rw [hbytes]
    exact hobject
  obtain ⟨t₁, hreopen, t₂, hcommit, hcontent⟩ := commit_reopenWriter hsession hstored
    (show _ ≤ 4 * minChunkSize from Nat.le_trans (length_take_le _ _) (by decide))
  have hreopened := reach_after hclosed (.reopen willing) rfl hreopen
  have hcommitted := reach_after hreopened (.commit willing) rfl hcommit
  refine ⟨_, _, hcommitted, rfl, rfl, hcontent, ?_⟩
  have hpos : 0 < minChunkSize := by decide
  simp only [length_append, length_take, length_drop, hp]
  omega

/-- A chunk of which nothing is acknowledged makes `Write` panic; one of which a part is makes
`Close` drop bytes. -/
theorem unacknowledged_bytes_harm :
    (∃ s : Appender.State (World ℕ) ℕ Error,
      Reach (Appender.step (driver minChunkSize)) (fun _ _ => True)
        (Appender.start (World.empty none)) s ∧ s.outcome = .crashed) ∧
    ∃ (s : Appender.State (World ℕ) ℕ Error) (o : StoredObject ℕ),
      Reach (Appender.step (driver (4 * minChunkSize))) (fun _ _ => True)
        (Appender.start (World.empty none)) s ∧ s.outcome = .ok ∧ s.phase = .committed ∧
        s.world.object = some o ∧ o.body.length < s.accepted.length :=
  ⟨exists_crash (p := List.replicate minChunkSize 0) length_replicate,
    exists_loss (p := List.replicate (3 * minChunkSize) 0) length_replicate⟩

end ContainerRegistry.Analysis.GcsUploads
