import ContainerRegistry.Model.S3Uploads
import Mathlib.Data.List.Range

/-!
# What the S3 writer leaves in the bucket

While a writer is open its upload, its buffers and its list of parts belong together (`Backed`,
`Writing`), from round to round of `Write` (`writeLoop_ends`). `Close` leaves the parts, `Commit`
completes them.
-/

namespace ContainerRegistry.Analysis.S3Uploads

open List

open Library Library.Stage Model.S3Uploads
open Library.Appender (Phase)

variable {α : Type} {C : ℕ}

/-! ## Parts -/

def bodies (qs : List (StoredPart α)) : List α := qs.flatMap StoredPart.body

/-- All parts but the last one are large enough, and none is too large. -/
structure Sized (qs : List (StoredPart α)) : Prop where
  large : ∀ q ∈ qs.dropLast, minChunkSize ≤ q.body.length
  bounded : ∀ q ∈ qs, q.body.length ≤ maxChunkSize

structure Whole (qs : List (StoredPart α)) : Prop where
  large : ∀ q ∈ qs, minChunkSize ≤ q.body.length
  bounded : ∀ q ∈ qs, q.body.length ≤ maxChunkSize

variable {qs : List (StoredPart α)}

/-- The last part may be large, too. -/
theorem Whole.sized (h : Whole qs) : Sized qs :=
  ⟨fun q hq => h.large q (dropLast_subset _ hq), h.bounded⟩

variable {q : StoredPart α}

/-- Another part, of any size. -/
theorem Whole.append (h : Whole qs) (hmax : q.body.length ≤ maxChunkSize) : Sized (qs ++ [q]) where
  large := by
    rw [dropLast_concat]
    exact h.large
  bounded := forall_mem_append.2 ⟨h.bounded, by simpa using hmax⟩

/-- Another large part. -/
theorem Whole.append_large (h : Whole qs) (hmin : minChunkSize ≤ q.body.length)
    (hmax : q.body.length ≤ maxChunkSize) : Whole (qs ++ [q]) where
  large := forall_mem_append.2 ⟨h.large, by simpa using hmin⟩
  bounded := (h.append hmax).bounded

/-- If the last part is not small, none is. -/
theorem Sized.whole (h : Sized qs) (hlast : smallTail (qs.map StoredPart.part) = false) :
    Whole qs := by
  refine ⟨fun q hq => ?_, h.bounded⟩
  have hne : qs ≠ [] := ne_nil_of_mem hq
  rw [← dropLast_concat_getLast hne, mem_append] at hq
  rcases hq with hq | hq
  · exact h.large q hq
  · rw [mem_singleton.1 hq]
    simpa [smallTail, List.getLast?_eq_getLast_of_ne_nil, hne, StoredPart.part] using hlast

def Numbered (qs : List (StoredPart α)) : Prop :=
  qs.map StoredPart.partNumber = List.range' 1 qs.length

section

variable (h : Numbered qs)
include h

/-- The numbers go up. -/
theorem Numbered.pairwise : qs.Pairwise fun x y => x.partNumber < y.partNumber := by
  rw [← pairwise_map (f := StoredPart.partNumber) (R := (· < ·)), h]
  exact pairwise_lt_range'

/-- The next number is free. -/
theorem Numbered.le_length (hq : q ∈ qs) : q.partNumber < qs.length + 1 := by
  have hmem : q.partNumber ∈ List.range' 1 qs.length := h ▸ mem_map_of_mem hq
  have hrange := mem_range'_1.1 hmem
  omega

/-- A part with the next number comes last. -/
theorem Numbered.insertPart (hq : q.partNumber = qs.length + 1) :
    Bucket.insertPart q qs = qs ++ [q] :=
  Appender.insert_of_lt fun _ hx => hq ▸ h.le_length hx

/-- The parts are numbered with it. -/
theorem Numbered.append (hq : q.partNumber = qs.length + 1) : Numbered (qs ++ [q]) := by
  unfold Numbered at h ⊢
  rw [map_append, h, length_append, length_singleton, range'_concat]
  simp [hq, Nat.add_comm]

/-- The number tells the part. -/
theorem Numbered.eq_of_partNumber {x y} (hx : x ∈ qs) (hy : y ∈ qs)
    (hxy : x.partNumber = y.partNumber) : x = y := by
  have hnodup : (qs.map StoredPart.partNumber).Nodup := h ▸ nodup_range'
  exact inj_on_of_nodup_map hnodup hx hy hxy

/-- All parts are found by what the writer knows of them. -/
theorem named_self : Bucket.named qs (qs.map StoredPart.part) = some qs := by
  have hall : ∀ l : List (StoredPart α), (∀ q ∈ l, q ∈ qs) →
      Bucket.named qs (l.map StoredPart.part) = some l := by
    intro l hl
    induction l with
    | nil => rfl
    | cons q l ih =>
      have hfind : qs.find? (fun x => x.etag = q.part.etag ∧ x.partNumber = q.part.partNumber) =
          some q := by
        have hq := hl q mem_cons_self
        cases hres : qs.find? (fun x => x.etag = q.part.etag ∧
          x.partNumber = q.part.partNumber) with
        | none =>
          have hnone := List.find?_eq_none.1 hres q hq
          simp [StoredPart.part] at hnone
        | some x =>
          have hx := List.mem_of_find?_eq_some hres
          have hprop : x.etag = q.part.etag ∧ x.partNumber = q.part.partNumber := by
            simpa using List.find?_some hres
          rw [h.eq_of_partNumber hx hq hprop.2]
      have htail := ih fun x hx => hl x (mem_cons_of_mem _ hx)
      unfold Bucket.named at htail ⊢
      rw [map_cons, mapM_cons, hfind, htail]
      rfl
  exact hall qs fun _ => id

end

/-! ## Requests -/

def Free (P : World α → Prop) : Prop := ∀ w faults, P w → P { w with faults := faults }

variable {E : Error → World α → Prop} {P Q : World α → Prop}

/-- A request may fail, and then does nothing. -/
theorem request_meets {f : World α → Except Error (World α)} (hfree : Free P)
    (hok : ∀ w, P w → ∃ w', f w = .ok w' ∧ Q w') (hfault : ∀ w, P w → E .fault w) :
    Meets P (request f) Q E := by
  intro w hw
  have hw' := hfree w w.faults.tail hw
  unfold request
  split
  next => exact hfault _ hw'
  next =>
    obtain ⟨w', hf, hQ⟩ := hok _ hw'
    rw [hf]
    exact hQ

structure Backed (qs : List (StoredPart α)) (w : World α) : Prop where
  uploads : w.bucket.uploads = [⟨w.writer.uploadID, qs⟩]
  parts : w.writer.parts = qs.map StoredPart.part
  numbered : Numbered qs

def content (qs : List (StoredPart α)) (w : Writer α) : List α :=
  bodies qs ++ (w.readyPart ++ w.pendingPart)

/-- What can be said after a failure: a request has failed, and the parts are of a proper size. -/
def Excused (e : Error) (w : World α) : Prop := e = .fault ∧ ∀ u ∈ w.bucket.uploads, Sized u.parts

variable {w : World α}

/-- An upload of proper size is excused. -/
theorem excused_of_sized {uploadID} (h : w.bucket.uploads = [⟨uploadID, qs⟩])
    (hsized : Sized qs) : Excused .fault w := by
  refine ⟨rfl, fun u hu => ?_⟩
  rw [h, mem_singleton] at hu
  rw [hu]
  exact hsized

/-- So is the writer's. -/
theorem Backed.excused (h : Backed qs w) (hsized : Sized qs) : Excused .fault w :=
  excused_of_sized h.uploads hsized

/-- The service takes the next part. -/
theorem uploadPart_eq {b : Bucket α} {uploadID : ℕ} (hb : b.uploads = [⟨uploadID, qs⟩])
    (h : Numbered qs) (body : List α) :
    b.uploadPart uploadID (qs.length + 1) body =
      .ok ({ b with uploads := [⟨uploadID, qs ++ [⟨b.serial, qs.length + 1, body⟩]⟩],
                    serial := b.serial + 1 }, b.serial) := by
  have hinsert : Bucket.insertPart ⟨b.serial, qs.length + 1, body⟩ qs =
      qs ++ [⟨b.serial, qs.length + 1, body⟩] := h.insertPart rfl
  simp [Bucket.uploadPart, hb, hinsert]

/-- INTERNAL: the world after `uploadReady`. -/
def uploaded (qs : List (StoredPart α)) (w : World α) : World α :=
  { w with
    bucket := { w.bucket with
      uploads := [⟨w.writer.uploadID, qs ++ [⟨w.bucket.serial, qs.length + 1, w.writer.readyPart⟩]⟩]
      serial := w.bucket.serial + 1 }
    writer := { w.writer with
      parts := w.writer.parts ++ [⟨w.bucket.serial, qs.length + 1, w.writer.readyPart.length⟩]
      readyPart := w.writer.pendingPart
      pendingPart := [] } }

/-- `uploadReady` is one request. -/
theorem uploadReady_meets (hfree : Free P) (hok : ∀ w, P w → ∃ qs, Backed qs w ∧ Q (uploaded qs w))
    (hfault : ∀ w, P w → E .fault w) : Meets P uploadReady Q E := by
  refine request_meets hfree (fun w hw => ?_) hfault
  obtain ⟨qs, hbacked, hQ⟩ := hok w hw
  refine ⟨uploaded qs w, ?_, hQ⟩
  have hlength : w.writer.parts.length = qs.length := by rw [hbacked.parts, length_map]
  rw [hlength, uploadPart_eq hbacked.uploads hbacked.numbered]
  rfl

/-- The part is known to both. -/
theorem Backed.uploaded (h : Backed qs w) :
    Backed (qs ++ [⟨w.bucket.serial, qs.length + 1, w.writer.readyPart⟩]) (uploaded qs w) where
  uploads := rfl
  parts := by
    rw [map_append, ← h.parts]
    rfl
  numbered := h.numbered.append rfl

/-- The content with another part. -/
theorem bodies_append (qs : List (StoredPart α)) (q : StoredPart α) :
    bodies (qs ++ [q]) = bodies qs ++ q.body := by simp [bodies]

/-! ## Writers -/

structure Tidy (C : ℕ) (w : Writer α) : Prop where
  ready : w.readyPart.length ≤ C
  pending : w.pendingPart.length < C
  full : w.pendingPart ≠ [] → w.readyPart.length = C

/-- The parts are large enough for what is in the buffers to become another one. -/
structure Writing (C : ℕ) (acc : List α) (w : World α) : Prop where
  open_ : w.writer.closed = false ∧ w.writer.committed = false
  size : w.writer.size = acc.length
  tidy : Tidy C w.writer
  backed : ∃ qs, Backed qs w ∧ content qs w.writer = acc ∧ Sized qs ∧
    (w.writer.readyPart ≠ [] → Whole qs)

def Parted (acc : List α) (w : World α) : Prop := ∃ qs, Backed qs w ∧ bodies qs = acc ∧ Sized qs

/-- The second buffer is used after the first. -/
theorem Tidy.pending_nil {w : Writer α} (h : Tidy C w) (hC : 0 < C) (hready : w.readyPart = []) :
    w.pendingPart = [] := by
  by_contra hne
  have hfull := h.full hne
  rw [hready, length_nil] at hfull
  omega

variable {acc : List α}

/-- What is in the buffers may become a part. -/
def Unflushed (C : ℕ) (acc : List α) (w : World α) : Prop :=
  Tidy C w.writer ∧ w.writer.readyPart.length + w.writer.pendingPart.length ≤ maxChunkSize ∧
    ∃ qs, Backed qs w ∧ content qs w.writer = acc ∧ Sized qs ∧ (w.writer.readyPart ≠ [] → Whole qs)

/-- **What `Close` and `Commit` upload is all there is.** -/
theorem flushPart_meets (hC : 0 < C) :
    Meets (Unflushed C acc) (flushPart C) (Parted acc) Excused := by
  rintro w ⟨htidy, hmax, qs, hbacked, hcontent, hsized, hwhole⟩
  unfold flushPart
  split
  next hempty =>
    refine ⟨qs, hbacked, ?_, hsized⟩
    rw [content, length_eq_zero_iff.1 hempty.1, length_eq_zero_iff.1 hempty.2,
      append_nil, append_nil] at hcontent
    exact hcontent
  next hbuffered =>
    have hready : w.writer.readyPart ≠ [] := by
      intro hnil
      exact hbuffered ⟨by rw [hnil]; rfl, by rw [htidy.pending_nil hC hnil]; rfl⟩
    rw [if_pos htidy.pending]
    -- both buffers are in the first one now
    have hupload : Meets (fun w : World α => w.writer.readyPart.length ≤ maxChunkSize ∧
        w.writer.pendingPart = [] ∧ Backed qs w ∧ content qs w.writer = acc)
        uploadReady (Parted acc) Excused := by
      refine uploadReady_meets ?_ ?_ ?_
      · rintro w faults ⟨hmax, hpending, hbacked, hcontent⟩
        exact ⟨hmax, hpending, { hbacked with }, hcontent⟩
      · rintro w ⟨hmax, hpending, hbacked, hcontent⟩
        refine ⟨qs, hbacked, _, hbacked.uploaded, ?_, (hwhole hready).append hmax⟩
        rw [bodies_append, ← hcontent, content, hpending, append_nil]
      · rintro w ⟨-, -, hbacked, -⟩
        exact hbacked.excused hsized
    refine hupload _ ⟨?_, rfl, { hbacked with }, ?_⟩
    · rw [length_append]
      exact hmax
    · rw [← hcontent, content, content, append_nil]

/-! ## Completing an upload -/

/-- The parts are in order. -/
theorem sort_parts (h : Numbered qs) :
    (qs.map StoredPart.part).insertionSort (fun p q => p.partNumber ≤ q.partNumber) =
      qs.map StoredPart.part := by
  apply List.Pairwise.insertionSort_eq
  rw [pairwise_map]
  exact h.pairwise.imp fun hlt => Nat.le_of_lt hlt

/-- The service completes parts of proper size. -/
theorem completeMultipartUpload_eq {b : Bucket α} {uploadID : ℕ} (hb : b.uploads = [⟨uploadID, qs⟩])
    (h : Numbered qs) (hne : qs ≠ []) (hsized : Sized qs) :
    b.completeMultipartUpload uploadID (qs.map StoredPart.part) =
      .ok { b with object := some (bodies qs), uploads := [] } := by
  have hfind : b.uploads.find? (fun u => u.uploadID = uploadID) = some ⟨uploadID, qs⟩ := by
    simp [hb]
  have hordered : ((qs.map StoredPart.part).map Part.partNumber).Pairwise (· < ·) := by
    rw [map_map, pairwise_map]
    exact h.pairwise
  have hlarge : ¬ ∃ q ∈ qs.dropLast, q.body.length < minChunkSize := by
    rintro ⟨q, hq, hlt⟩
    exact absurd (hsized.large q hq) (Nat.not_le_of_lt hlt)
  unfold Bucket.completeMultipartUpload
  rw [hfind]
  simp only [map_eq_nil_iff, hne, if_false, named_self h, hordered, not_true_eq_false, hlarge]
  simp [Bucket.abortMultipartUpload, hb, bodies]

/-- What is done after a failure may be anything that is excused. -/
theorem cleanup_meets {a c : Action α} (h : Meets P a Q E) (hc : ∀ e w, E e w → E e (c w).1) :
    Meets P (cleanup a c) Q E := by
  intro w hw
  unfold cleanup
  rcases (h w hw).elim with ⟨w', hr, hQ⟩ | ⟨w', e, hr, hE⟩ <;> rw [hr]
  · exact hQ
  · exact hc e w' hE

/-- An upload may be given up. -/
theorem excused_abort {e} (h : Excused e w) : Excused e (abort w).1 := by
  refine ⟨h.1, fun u hu => h.2 u ?_⟩
  unfold abort request at hu
  split at hu
  next => exact hu
  next => exact mem_of_mem_filter hu

/-- **Completing the upload makes the parts the object.** -/
theorem completeUpload_meets {R : Writer α → Prop} :
    Meets (fun w : World α => R w.writer ∧ Parted acc w ∧ w.writer.parts ≠ []) completeUpload
      (fun w => R w.writer ∧ w.bucket.uploads = [] ∧ w.bucket.object = some acc) Excused := by
  refine cleanup_meets (request_meets ?_ ?_ ?_) fun e w => excused_abort
  · rintro w faults ⟨hw, ⟨qs, hbacked, hqs⟩, hparts⟩
    exact ⟨hw, ⟨qs, { hbacked with }, hqs⟩, hparts⟩
  · rintro w ⟨hw, ⟨qs, hbacked, rfl, hsized⟩, hparts⟩
    have hne : qs ≠ [] := by
      rintro rfl
      exact hparts hbacked.parts
    rw [hbacked.parts, sort_parts hbacked.numbered,
      completeMultipartUpload_eq hbacked.uploads hbacked.numbered hne hsized]
    exact ⟨_, rfl, hw, rfl, rfl⟩
  · rintro w ⟨-, ⟨qs, hbacked, -, hsized⟩, -⟩
    exact hbacked.excused hsized

/-! ## Renewing an upload -/

structure Emptied (acc : List α) (w : Writer α) : Prop where
  open_ : w.closed = false ∧ w.committed = false
  size : w.size = acc.length
  ready : w.readyPart = []
  pending : w.pendingPart = []

/-- Nothing is in the buffers after a small part. -/
theorem Writing.emptied (hC : 0 < C) (h : Writing C acc w)
    (hsmall : smallTail w.writer.parts = true) :
    Emptied acc w.writer ∧ Parted acc w ∧ w.writer.parts ≠ [] := by
  obtain ⟨qs, hbacked, hcontent, hsized, hwhole⟩ := h.backed
  have hne : w.writer.parts ≠ [] := by
    intro hnil
    simp [smallTail, hnil] at hsmall
  have hready : w.writer.readyPart = [] := by
    by_contra hbuffered
    rw [hbacked.parts] at hsmall hne
    have hnil : qs ≠ [] := fun hqs => hne (by rw [hqs]; rfl)
    have hlarge := (hwhole hbuffered).large _ (getLast_mem hnil)
    simp only [smallTail, List.getLast?_map, List.getLast?_eq_getLast_of_ne_nil hnil,
      Option.map_some, Option.any_some, StoredPart.part, decide_eq_true_eq] at hsmall
    omega
  have hpending := h.tidy.pending_nil hC hready
  refine ⟨⟨h.open_, h.size, hready, hpending⟩, ⟨qs, hbacked, ?_, hsized⟩, hne⟩
  rw [← hcontent, content, hready, hpending, append_nil, append_nil]

/-- A new upload without parts, and the file as the object. -/
structure Renewing (acc : List α) (w : World α) : Prop where
  emptied : Emptied acc w.writer
  uploads : w.bucket.uploads = [⟨w.writer.uploadID, []⟩]
  object : w.bucket.object = some acc

/-- A new upload is excused. -/
theorem Renewing.excused (h : Renewing acc w) : Excused .fault w :=
  excused_of_sized h.uploads ⟨by simp, by simp⟩

/-- The new upload. -/
theorem createUpload_meets :
    Meets (fun w : World α => Emptied acc w.writer ∧ w.bucket.uploads = [] ∧
      w.bucket.object = some acc) createUpload (Renewing acc) Excused := by
  refine request_meets (fun _ _ h => h) ?_ ?_
  · rintro w ⟨h, huploads, hobject⟩
    refine ⟨_, rfl, { h with }, ?_, hobject⟩
    simp [Bucket.createMultipartUpload, huploads]
  · rintro w ⟨-, huploads, -⟩
    exact ⟨rfl, by simp [huploads]⟩

/-- A small file is read into the buffer. -/
theorem readObject_meets (hmin : minChunkSize ≤ C) :
    Meets (fun w : World α => Renewing acc w ∧ acc.length < minChunkSize) readObject
      (fun w => Writing C acc w ∧ smallTail w.writer.parts = false) Excused := by
  refine request_meets ?_ ?_ fun w h => h.1.excused
  · rintro w faults ⟨h, hsmall⟩
    exact ⟨{ h with }, hsmall⟩
  · rintro w ⟨h, hsmall⟩
    have hget : w.bucket.getObject = .ok acc := by simp [Bucket.getObject, h.object]
    rw [hget]
    refine ⟨_, rfl, ⟨h.emptied.open_, h.emptied.size, ⟨?_, ?_, ?_⟩, [], ⟨h.uploads, rfl, rfl⟩, ?_,
      ⟨by simp, by simp⟩, fun _ => ⟨by simp, by simp⟩⟩, rfl⟩
    · simp only
      omega
    · simp only [h.emptied.pending, length_nil]
      omega
    · simp [h.emptied.pending]
    · simp [content, bodies, h.emptied.pending]

/-- A larger one becomes the first part. -/
theorem copyObject_meets (hC : 0 < C) (hmax : acc.length ≤ maxChunkSize) :
    Meets (fun w : World α => Renewing acc w ∧ ¬ acc.length < minChunkSize) copyObject
      (fun w => Writing C acc w ∧ smallTail w.writer.parts = false) Excused := by
  refine request_meets ?_ ?_ fun w h => h.1.excused
  · rintro w faults ⟨h, hlarge⟩
    exact ⟨{ h with }, hlarge⟩
  · rintro w ⟨h, hlarge⟩
    have hcopy := uploadPart_eq h.uploads rfl acc
    have hget : w.bucket.getObject = .ok acc := by simp [Bucket.getObject, h.object]
    have hupload : w.bucket.uploadPartCopy w.writer.uploadID 1 =
        w.bucket.uploadPart w.writer.uploadID 1 acc := by
      rw [Bucket.uploadPartCopy, hget]
      rfl
    rw [length_nil, Nat.zero_add] at hcopy
    rw [hupload, hcopy]
    have hwhole : Whole [(⟨w.bucket.serial, 1, acc⟩ : StoredPart α)] :=
      ⟨by simpa using Nat.le_of_not_lt hlarge, by simpa using hmax⟩
    refine ⟨_, rfl, ⟨h.emptied.open_, h.emptied.size, ⟨?_, ?_, ?_⟩, _, ⟨rfl, ?_, rfl⟩, ?_,
      hwhole.sized, fun _ => hwhole⟩, ?_⟩
    · simp [h.emptied.ready]
    · simpa [h.emptied.pending] using hC
    · simp [h.emptied.pending]
    · simp [StoredPart.part, h.emptied.size]
    · simp [content, bodies, h.emptied.ready, h.emptied.pending]
    · simp only [smallTail, List.getLast?_singleton, Option.any_some, h.emptied.size, hlarge,
        decide_false]

/-- **Renewing the upload of a file with a small last part** leaves it as it is. -/
theorem renewUpload_meets (hmin : minChunkSize ≤ C) (hmax : acc.length ≤ maxChunkSize) :
    Meets (fun w : World α => Writing C acc w ∧ smallTail w.writer.parts = true) renewUpload
      (fun w => Writing C acc w ∧ smallTail w.writer.parts = false) Excused := by
  have hC : 0 < C := Nat.lt_of_lt_of_le (by simp [minChunkSize]) hmin
  have hcomplete : Meets (fun w : World α => Writing C acc w ∧ smallTail w.writer.parts = true)
      completeUpload (fun w => Emptied acc w.writer ∧ w.bucket.uploads = [] ∧
        w.bucket.object = some acc) Excused :=
    completeUpload_meets.imp (fun w h => h.1.emptied hC h.2) fun _ => id
  refine hcomplete.andThen (createUpload_meets.andThen fun w h => ?_)
  rw [h.emptied.size]
  split
  next hsmall => exact readObject_meets hmin w ⟨h, hsmall⟩
  next hlarge => exact copyObject_meets hC hmax w ⟨h, hlarge⟩

/-! ## `Write` -/

/-- Between two rounds of `Write` what has been taken is in the parts and the buffers, and `size` is
as before. -/
structure Filling (C size : ℕ) (acc : List α) (w : World α) : Prop where
  open_ : w.writer.closed = false ∧ w.writer.committed = false
  size : w.writer.size = size
  tidy : Tidy C w.writer
  backed : ∃ qs, Backed qs w ∧ content qs w.writer = acc ∧ Whole qs

def Full (C size : ℕ) (acc : List α) (w : World α) : Prop :=
  (w.writer.closed = false ∧ w.writer.committed = false) ∧ w.writer.size = size ∧
    w.writer.readyPart.length = C ∧ w.writer.pendingPart.length = C ∧
    ∃ qs, Backed qs w ∧ content qs w.writer = acc ∧ Whole qs

/-- Two full buffers: the first is uploaded. -/
theorem flush_full (size : ℕ) (hmin : minChunkSize ≤ C) (hmax : C ≤ maxChunkSize) :
    Meets (Full C size acc) (flushPart C) (Filling C size acc) Excused := by
  have hC : 0 < C := Nat.lt_of_lt_of_le (by simp [minChunkSize]) hmin
  have hupload : Meets (Full C size acc) uploadReady (Filling C size acc) Excused := by
    refine uploadReady_meets ?_ ?_ ?_
    · rintro w faults ⟨hopen, hsize, hready, hpending, qs, hbacked, hqs⟩
      exact ⟨hopen, hsize, hready, hpending, qs, { hbacked with }, hqs⟩
    · rintro w ⟨hopen, hsize, hready, hpending, qs, hbacked, hcontent, hwhole⟩
      refine ⟨qs, hbacked, hopen, hsize, ⟨?_, ?_, ?_⟩, _, hbacked.uploaded, ?_, ?_⟩
      · exact Nat.le_of_eq hpending
      · exact hC
      · exact fun hne => (hne rfl).elim
      · rw [content, bodies_append, ← hcontent, content, append_assoc]
        simp [uploaded]
      · exact hwhole.append_large (hready ▸ hmin) (hready ▸ hmax)
    · rintro w ⟨-, -, -, -, qs, hbacked, -, hwhole⟩
      exact hbacked.excused hwhole.sized
  rintro w h
  obtain ⟨-, -, hready, hpending, -⟩ := id h
  unfold flushPart
  rw [if_neg (by omega), if_neg (by omega)]
  exact hupload w h

/-- What the buffers take comes after what is there. -/
theorem content_fill (qs : List (StoredPart α)) (w : Writer α) (p : List α) {first} (second : ℕ)
    (hcontent : content qs w = acc) (hfirst : w.pendingPart ≠ [] → first = 0) :
    content qs { w with
      readyPart := w.readyPart ++ p.take first
      pendingPart := w.pendingPart ++ (p.drop first).take second } =
        acc ++ (p.take first ++ (p.drop first).take second) := by
  subst hcontent
  unfold content
  by_cases hpending : w.pendingPart = []
  · simp [hpending]
  · simp [hfirst hpending]

/-- **The loop of `Write` ends with everything taken.** Each round fills the buffers, and uploads
the first when both are full. -/
theorem writeLoop_ends {size} (hmin : minChunkSize ≤ C) (hmax : C ≤ maxChunkSize) {fuel p acc}
    (hw : Filling C size acc w) (hfuel : p.length ≤ fuel) :
    Appender.Ends (fun t => t.2 = [] ∧ Filling C size (acc ++ p) t.1) (fun e t => Excused e t.1)
      (writeLoop C fuel p w) := by
  induction fuel generalizing p acc w with
  | zero =>
    rw [length_eq_zero_iff.1 (Nat.le_zero.1 hfuel), append_nil]
    exact ⟨rfl, hw⟩
  | succ fuel ih =>
    cases hp : p with
    | nil =>
      rw [append_nil]
      exact ⟨rfl, hw⟩
    | cons x xs =>
      rw [← hp]
      obtain ⟨qs, hbacked, hcontent, hwhole⟩ := hw.backed
      obtain ⟨hready, hpending, hfull⟩ := hw.tidy
      have hpos : 0 < p.length := by simp [hp]
      rw [hp, writeLoop, ← hp]
      simp only
      generalize hfirst : C - w.writer.readyPart.length = first
      generalize hsecond : C - w.writer.pendingPart.length = second
      have hnone : w.writer.pendingPart ≠ [] → first = 0 := by
        intro hne
        have heq := hfull hne
        omega
      have htaken := content_fill qs w.writer p second hcontent hnone
      have hlength : (p.drop first).length = p.length - first := length_drop
      split
      next hflush =>
        -- both buffers are full now
        rcases (flush_full size hmin hmax { w with writer := { w.writer with
            readyPart := w.writer.readyPart ++ p.take first
            pendingPart := w.writer.pendingPart ++ (p.drop first).take second } }
          ⟨hw.open_, hw.size, by simp; omega, by simp; omega, qs, { hbacked with }, htaken,
            hwhole⟩).elim with
          ⟨w', heq, hfilling⟩ | ⟨w', e, heq, he⟩ <;> simp only [heq]
        · have hrest := ih hfilling (p := (p.drop first).drop second) (by simp; omega)
          rw [append_assoc, append_assoc, take_append_drop, take_append_drop] at hrest
          exact hrest
        · exact he
      next hkeep =>
        -- nothing is left
        have hnil : (p.drop first).drop second = [] := drop_eq_nil_of_le (by omega)
        have htake : (p.drop first).take second = p.drop first := take_of_length_le (by omega)
        rw [htake] at htaken ⊢
        rw [take_append_drop] at htaken
        rw [hnil]
        have hloop : ∀ t : World α, writeLoop C fuel [] t = ((t, []), .ok) := by
          intro t
          cases fuel with
          | zero | succ fuel => rfl
        rw [hloop]
        refine ⟨rfl, hw.open_, hw.size, ⟨?_, ?_, ?_⟩, qs, { hbacked with }, htaken, hwhole⟩
        · simp
          omega
        · simp
          omega
        · intro hne
          simp only [length_append, length_take]
          by_cases hold : w.writer.pendingPart = []
          · have hmore : p.drop first ≠ [] := by simpa [hold] using hne
            have hlt := length_pos_of_ne_nil hmore
            omega
          · have heq := hfull hold
            omega

/-- `Write` starts after a large part. -/
theorem Writing.filling (h : Writing C acc w) (hlarge : smallTail w.writer.parts = false) :
    Filling C acc.length acc w := by
  obtain ⟨qs, hbacked, hcontent, hsized, -⟩ := h.backed
  exact ⟨h.open_, h.size, h.tidy, qs, hbacked, hcontent, hsized.whole (hbacked.parts ▸ hlarge)⟩

/-- **`Write` accepts everything**, unless a request fails. -/
theorem write_ends (hmin : minChunkSize ≤ C) (hmax : C ≤ maxChunkSize) {p}
    (h : Writing C acc w) (hcopy : smallTail w.writer.parts = true → acc.length ≤ maxChunkSize) :
    Appender.Ends (fun t => Writing C (acc ++ p.take t.2) t.1) (fun e t => Excused e t.1)
      (write C p w) := by
  have hrenewed : After (Filling C acc.length acc) Excused
      (Stage.when (smallTail w.writer.parts) renewUpload w) := by
    cases hsmall : smallTail w.writer.parts with
    | true =>
      have hmeets : Meets (fun w : World α => Writing C acc w ∧ smallTail w.writer.parts = true)
          renewUpload (Filling C acc.length acc) Excused :=
        (renewUpload_meets hmin (hcopy hsmall)).imp (fun _ => id) fun _ hw => hw.1.filling hw.2
      exact hmeets w ⟨h, hsmall⟩
    | false => exact h.filling hsmall
  unfold write
  rw [if_neg (by simp [h.open_.1]), if_neg (by simp [h.open_.2])]
  rcases hrenewed.elim with ⟨w', heq, hw'⟩ | ⟨w', e, heq, he⟩ <;> simp only [heq]
  · have hloop := writeLoop_ends hmin hmax hw' (Nat.le_refl p.length)
    generalize writeLoop C p.length p w' = r at hloop
    obtain ⟨⟨w'', rest⟩, o⟩ := r
    cases o with
    | ok =>
      obtain ⟨rfl, hfilling⟩ : rest = [] ∧ Filling C acc.length (acc ++ p) w'' := hloop
      obtain ⟨qs, hbacked, hcontent, hwhole⟩ := hfilling.backed
      refine ⟨hfilling.open_, ?_,
        { hfilling.tidy with }, qs, { hbacked with }, ?_, hwhole.sized, fun _ => hwhole⟩
      · simp [hfilling.size]
      · rw [length_nil, Nat.sub_zero, take_length]
        exact hcontent
    | failed e | crashed => exact hloop
  · exact he

/-! ## The calls -/

def Stored (C : ℕ) : Phase → List α → World α → Prop
  | .absent, _, w => w.bucket.uploads = []
  | .writing, acc, w => Writing C acc w
  | .closed, acc, w =>
    ∃ uploadID qs, w.bucket.uploads = [⟨uploadID, qs⟩] ∧ Numbered qs ∧ bodies qs = acc ∧ Sized qs
  | .committed, acc, w => w.bucket.uploads = [] ∧ w.bucket.object = some acc

/-- No call has failed; a writer is opened anew, and the file put, only when there is no upload; a
file is reopened with at most 1000 parts, and written to with a small last part up to 5 GiB; no more
is in the buffers on `Close` and `Commit`, and it is not empty on `Commit`. -/
def Admitted (s : Appender.State (World α) α Error) : Appender.Call α (List Bool) → Prop
  | .put _ _ => s.outcome = .ok ∧ s.phase ≠ .closed
  | .create _ => s.outcome = .ok ∧ s.phase ≠ .closed
  | .reopen _ => s.outcome = .ok ∧ s.phase = .closed ∧
    ∀ u ∈ s.world.bucket.uploads, u.parts.length ≤ maxParts
  | .write _ _ => s.outcome = .ok ∧
    (smallTail s.world.writer.parts = true → s.accepted.length ≤ maxChunkSize)
  | .close _ => s.outcome = .ok ∧
    s.world.writer.readyPart.length + s.world.writer.pendingPart.length ≤ maxChunkSize
  | .commit _ => s.outcome = .ok ∧
    s.world.writer.readyPart.length + s.world.writer.pendingPart.length ≤ maxChunkSize ∧
      s.accepted ≠ []

/-- A call is an action, with the faults of its requests. -/
theorem ends_of_meets {a : Action α} (h : Meets P a Q E) (hfree : Free P) (hw : P w)
    (faults : List Bool) : Appender.Ends Q E (call a faults w) := by
  unfold call
  rcases (h _ (hfree w faults hw)).elim with ⟨w', hr, h⟩ | ⟨w', e, hr, h⟩ <;> rw [hr] <;> exact h

/-- Faults are not part of the file. -/
theorem Writing.free : Free (Writing C acc) := by
  intro w faults h
  obtain ⟨qs, hbacked, hqs⟩ := h.backed
  exact ⟨h.open_, h.size, h.tidy, qs, { hbacked with }, hqs⟩

def Ready (C : ℕ) (acc : List α) (w : World α) : Prop :=
  Writing C acc w ∧ w.writer.readyPart.length + w.writer.pendingPart.length ≤ maxChunkSize

/-- Nor here. -/
theorem Ready.free : Free (Ready C acc) := fun w faults h => ⟨Writing.free w faults h.1, h.2⟩

/-- **`Close` leaves the parts of the file.** -/
theorem close_meets (hC : 0 < C) :
    Meets (Ready C acc) (close C) (Stored C .closed acc) Excused := by
  have hcheck : Meets (Ready C acc) (Stage.check fun w : World α =>
      if w.writer.closed then some (.text "already closed") else none) (Ready C acc) Excused := by
    refine Meets.check (fun w h _ => h) fun w e h he => ?_
    simp [h.1.open_.1] at he
  have hupdate : Meets (Ready C acc) (update fun w : Writer α => { w with closed := true })
      (Unflushed C acc) Excused := by
    intro w h
    obtain ⟨qs, hbacked, hqs⟩ := h.1.backed
    exact ⟨{ h.1.tidy with }, h.2, qs, { hbacked with }, hqs⟩
  refine hcheck.andThen (hupdate.andThen ((flushPart_meets hC).imp (fun _ => id) fun w h => ?_))
  obtain ⟨qs, hbacked, hbodies, hsized⟩ := h
  exact ⟨_, qs, hbacked.uploads, hbacked.numbered, hbodies, hsized⟩

/-- **`Commit` makes it the object.** -/
theorem commit_meets (hC : 0 < C) (hne : acc ≠ []) :
    Meets (Ready C acc) (commit C) (Stored C .committed acc) Excused := by
  have hcheck : Meets (Ready C acc) (Stage.check fun w : World α =>
      if w.writer.closed then some (.text "already closed")
      else if w.writer.committed then some (.text "already committed") else none)
      (Ready C acc) Excused := by
    refine Meets.check (fun w h _ => h) fun w e h he => ?_
    simp [h.1.open_.1, h.1.open_.2] at he
  have hflush : Meets (Ready C acc) (flushPart C) (Parted acc) Excused :=
    (flushPart_meets hC).imp (fun w h => ⟨h.1.tidy, h.2, h.1.backed⟩) fun _ => id
  have hupdate : Meets (Parted acc) (update fun w : Writer α => { w with committed := true })
      (fun w => True ∧ Parted acc w ∧ w.writer.parts ≠ []) Excused := by
    rintro w ⟨qs, hbacked, hbodies, hsized⟩
    refine ⟨trivial, ⟨qs, { hbacked with }, hbodies, hsized⟩, ?_⟩
    intro hnil
    have hqs : qs = [] := map_eq_nil_iff.1 (hbacked.parts.symm.trans hnil)
    rw [hqs] at hbodies
    exact hne hbodies.symm
  have hcomplete : Meets (fun w : World α => True ∧ Parted acc w ∧ w.writer.parts ≠ [])
      completeUpload (Stored C .committed acc) Excused :=
    (completeUpload_meets (R := fun _ => True)).imp (fun _ => id) fun w hw => hw.2
  exact hcheck.andThen (hflush.andThen (hupdate.andThen hcomplete))

/-- A new writer. -/
theorem createWriter_meets (hC : 0 < C) :
    Meets (fun w : World α => w.bucket.uploads = []) createWriter
      (Stored C .writing []) Excused := by
  refine request_meets (fun _ _ h => h) (fun w h => ?_) fun w h => ⟨rfl, by simp [h]⟩
  refine ⟨_, rfl, ⟨rfl, rfl⟩, rfl, ⟨Nat.zero_le _, hC, fun hne => (hne rfl).elim⟩, [],
    ⟨?_, rfl, rfl⟩,
    rfl, ⟨by simp, by simp⟩, fun _ => ⟨by simp, by simp⟩⟩
  simp [Bucket.createMultipartUpload, h, newWriter]

/-- The sizes of the parts add up. -/
theorem foldl_sizes (qs : List (StoredPart α)) (size : ℕ) :
    (qs.map StoredPart.part).foldl (fun size part => size + part.size) size =
      size + (bodies qs).length := by
  induction qs generalizing size with
  | nil => rfl
  | cons q qs ih =>
    rw [map_cons, foldl_cons, ih]
    simp only [bodies, StoredPart.part, flatMap_cons, length_append]
    omega

/-- `Size` is that of the content. -/
theorem newWriter_size (uploadID : ℕ) (qs : List (StoredPart α)) :
    (newWriter uploadID (qs.map StoredPart.part) : Writer α).size = (bodies qs).length := by
  rw [newWriter, foldl_sizes, Nat.zero_add]

/-- All parts are listed when the file is reopened. -/
def Reopenable (C : ℕ) (acc : List α) (w : World α) : Prop :=
  Stored C .closed acc w ∧ ∀ u ∈ w.bucket.uploads, u.parts.length ≤ maxParts

/-- A writer of the parts that are listed. -/
theorem reopenWriter_meets (hC : 0 < C) :
    Meets (Reopenable C acc) reopenWriter (Stored C .writing acc) Excused := by
  have hexcused : ∀ w : World α, Reopenable C acc w → Excused .fault w := by
    rintro w ⟨⟨uploadID, qs, huploads, -, -, hsized⟩, -⟩
    exact excused_of_sized huploads hsized
  have hlist : Meets (Reopenable C acc) (request fun w => .ok w) (Reopenable C acc) Excused :=
    request_meets (fun _ _ h => h) (fun w h => ⟨w, rfl, h⟩) hexcused
  refine hlist.andThen fun w h => ?_
  obtain ⟨⟨uploadID, qs, huploads, hnumbered, rfl, hsized⟩, hparts⟩ := h
  have hfew : qs.length ≤ maxParts := hparts ⟨uploadID, qs⟩ (by simp [huploads])
  rw [huploads]
  have hopen : Meets (fun w : World α => w.bucket.uploads = [⟨uploadID, qs⟩])
      (request fun w => (w.bucket.listParts uploadID).map
        fun parts => { w with writer := newWriter uploadID parts })
      (Stored C .writing (bodies qs)) Excused := by
    refine request_meets (fun _ _ h => h) (fun w h => ?_) fun w h => excused_of_sized h hsized
    · have hanswer : w.bucket.listParts uploadID = .ok (qs.map StoredPart.part) := by
        simp [Bucket.listParts, h, take_of_length_le hfew]
      rw [hanswer]
      refine ⟨_, rfl, ⟨rfl, rfl⟩, newWriter_size _ qs,
        ⟨Nat.zero_le _, hC, fun hne => (hne rfl).elim⟩, qs,
        ⟨h, rfl, hnumbered⟩, ?_, hsized, fun hne => (hne rfl).elim⟩
      simp [content, newWriter]
  exact hopen w huploads

/-- The file put at once. -/
theorem putContent_meets (p : List α) :
    Meets (fun w : World α => w.bucket.uploads = []) (putContent p) (Stored C .committed p)
      Excused :=
  request_meets (fun _ _ h => h) (fun w h => ⟨_, rfl, h, rfl⟩) fun w h => ⟨rfl, by simp [h]⟩

/-- There are no uploads but of a file that is being written. -/
theorem Stored.uploads_nil {phase} (h : Stored C phase acc w) (hwriting : phase ≠ .writing)
    (hclosed : phase ≠ .closed) : w.bucket.uploads = [] := by
  cases phase with
  | absent => exact h
  | writing => exact (hwriting rfl).elim
  | closed => exact (hclosed rfl).elim
  | committed => exact h.1

/-- **Every admitted call leaves the bucket as the file should be.** -/
theorem driver_respects (hmin : minChunkSize ≤ C) (hmax : C ≤ maxChunkSize) :
    Appender.Respects (driver C : Appender (World α) α Error (List Bool)) Admitted (Stored C)
      Excused := by
  have hC : 0 < C := Nat.lt_of_lt_of_le (by simp [minChunkSize]) hmin
  constructor
  case calm =>
    intro s c hok
    cases c with
    | put | create | reopen | write | close | commit => exact hok.1
  case put =>
    intro s r p hok hphase hstored
    exact ends_of_meets (putContent_meets p) (fun _ _ h => h) (hstored.uploads_nil hphase hok.2) r
  case create =>
    intro s r hok hphase hstored
    exact ends_of_meets (createWriter_meets hC) (fun _ _ h => h)
      (hstored.uploads_nil hphase hok.2) r
  case reopen =>
    intro s r hok _ hstored
    obtain ⟨-, hclosed, hparts⟩ := hok
    rw [hclosed] at hstored
    exact ends_of_meets (reopenWriter_meets hC) (fun _ _ h => h) ⟨hstored, hparts⟩ r
  case write =>
    intro s r p hok hstored
    exact write_ends hmin hmax (Writing.free _ r hstored) hok.2
  case close =>
    intro s r hok hstored
    exact ends_of_meets (close_meets hC) Ready.free ⟨hstored, hok.2⟩ r
  case commit =>
    intro s r hok hstored
    exact ends_of_meets (commit_meets hC hok.2.2) Ready.free ⟨hstored, hok.2.1⟩ r

/-! ## The writer -/

structure Intact (s : Appender.State (World α) α Error) : Prop where
  committed : s.outcome = .ok → s.phase = .committed → s.world.bucket.object = some s.accepted
  size : s.outcome = .ok → s.phase = .writing → s.world.writer.size = s.accepted.length
  parts : ∀ u ∈ s.world.bucket.uploads, (∀ q ∈ u.parts.dropLast, minChunkSize ≤ q.body.length) ∧
    ∀ q ∈ u.parts, q.body.length ≤ maxChunkSize
  /-- A call only fails when a request does. -/
  fault : s.outcome = .ok ∨ s.outcome = .failed .fault

/-- All parts are of a proper size. -/
theorem Stored.sized {phase} (h : Stored C phase acc w) :
    ∀ u ∈ w.bucket.uploads, Sized u.parts := by
  have hnone : w.bucket.uploads = [] → ∀ u ∈ w.bucket.uploads, Sized u.parts := by
    intro hnil
    simp [hnil]
  cases phase with
  | absent => exact hnone h
  | committed => exact hnone h.1
  | writing =>
    obtain ⟨qs, hbacked, -, hsized, -⟩ := h.backed
    exact (hbacked.excused hsized).2
  | closed =>
    obtain ⟨uploadID, qs, huploads, -, -, hsized⟩ := h
    exact (excused_of_sized huploads hsized).2

instance (s : Appender.State (World α) α Error) (c : Appender.Call α (List Bool))
    [DecidableEq α] : Decidable (Admitted s c) := by
  cases c <;> dsimp only [Admitted] <;> infer_instance

/-- The parts beyond the first 1000 are forgotten when a file is reopened, and `Size` is too
small. -/
theorem reopen_forgets_parts {uploadID} (huploads : w.bucket.uploads = [⟨uploadID, qs⟩])
    (hmany : maxParts < qs.length) (hbodies : ∀ q ∈ qs, q.body ≠ []) :
    (call reopenWriter [] w).2 = .ok ∧
      (call reopenWriter [] w).1.writer.size < (bodies qs).length := by
  have hanswer : w.bucket.listParts uploadID = .ok ((qs.take maxParts).map StoredPart.part) := by
    simp [Bucket.listParts, huploads]
  have hcall : call reopenWriter [] w = ({ w with
      writer := newWriter uploadID ((qs.take maxParts).map StoredPart.part), faults := [] },
        .ok) := by
    simp [call, reopenWriter, Stage.andThen, request, huploads, hanswer, outcome, Except.map]
  have htotal : bodies qs = bodies (qs.take maxParts) ++ bodies (qs.drop maxParts) := by
    simp only [bodies, ← flatMap_append, take_append_drop]
  have hrest : bodies (qs.drop maxParts) ≠ [] := by
    obtain ⟨q, hq⟩ := exists_mem_of_ne_nil (qs.drop maxParts) (by simpa using hmany)
    exact fun hnil => hbodies q (mem_of_mem_drop hq) (flatMap_eq_nil_iff.1 hnil q hq)
  rw [hcall, htotal, length_append]
  exact ⟨rfl, (newWriter_size _ _).trans_lt (Nat.lt_add_of_pos_right (length_pos_of_ne_nil hrest))⟩

/-- 1001 parts of one byte, of which the writer counts fewer. -/
theorem last_part_forgotten : ∃ (w : World ℕ) (u : Upload ℕ),
    w.bucket.uploads = [u] ∧ u.parts.length = 1001 ∧ (call reopenWriter [] w).2 = .ok ∧
      (call reopenWriter [] w).1.writer.size < (bodies u.parts).length :=
  ⟨⟨⟨none, [⟨0, replicate 1001 ⟨0, 0, [0]⟩⟩], 1⟩, newWriter 0 [], []⟩, _, rfl, length_replicate,
    reopen_forgets_parts rfl (length_replicate ▸ Nat.lt_succ_self maxParts)
      fun _ hq => eq_of_mem_replicate hq ▸ cons_ne_nil _ _⟩

end ContainerRegistry.Analysis.S3Uploads
