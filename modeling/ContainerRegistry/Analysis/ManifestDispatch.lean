import ContainerRegistry.Analysis.ManifestRoundTrip

/-!
# The two ways to read a manifest

The filesystem reads a payload by what it says about itself, the database by the media type and the
schema version of its row. A row is that of the decoded payload (`recorded_of_reach`), so the two
agree on it; a list without manifests, which the filesystem takes for an image, has no row. Where a
payload names no type and is no list, the filesystem panics.
-/

namespace ContainerRegistry.Analysis.Manifests

open Library Model.Manifests
open Model (Digest TagName)

variable {Bytes : Type} {F : Formats Bytes} {cfg : Config Bytes}

/-- What was decoded when the payload of a row was uploaded. -/
structure Recorded (F : Formats Bytes) (d : Digest) (row : Row Bytes) (t : MediaType)
    (m : Manifest Bytes) : Prop where
  sound : RowSound F d row
  decodes : Decodes F row.payload t m
  version : (versioned m).schemaVersion = 2

/-- Every row comes from an upload. -/
theorem recorded_of_reach {ok : Store Bytes → Action Bytes → Prop} {s}
    (hs : Reach (step F cfg) ok Store.empty s) :
    ∀ d row, s.db.manifests d = some row → ∃ t m, Recorded F d row t m := by
  refine hs.invariant
    (P := fun s => ∀ d row, s.db.manifests d = some row → ∃ t m, Recorded F d row t m)
    (by intro d row hrow; cases hrow) ?_
  intro s a s' _ hs _ hstep d row hrow
  cases a <;> simp only [step, Option.some.injEq] at hstep <;> subst hstep
  · rcases putManifest_row hrow with hold | ⟨t, m, hdec, rfl, hver, hfilled, hmem, rfl⟩
    · exact hs d row hold
    · exact ⟨t, m, ⟨rfl, hver, hmem, t, m, hdec, rfl, hfilled⟩, hdec, hver⟩
  · dsimp only [uploadBlob] at hrow
    split at hrow <;> exact hs d row hrow
  · next e _ =>
    cases e with
    | row d' => exact hs d row (of_update_none hrow)
    | _ => exact hs d row hrow

theorem decoded_ne_panics (r : Except DecodeError (Manifest Bytes)) :
    decoded r ≠ .error .panics := by
  cases r <;> simp [decoded]

/-- Reading a row does not panic. -/
theorem dbPayloadToManifest_ne_panics (row : Row Bytes) :
    dbPayloadToManifest F row ≠ .error .panics := by
  unfold dbPayloadToManifest
  split
  · simp
  split
  · simp
  split
  · exact decoded_ne_panics _
  · exact decoded_ne_panics _
  · exact decoded_ne_panics _
  · exact decoded_ne_panics _
  · split
    · simp
    · split
      · simp
      · exact decoded_ne_panics _
  · simp

/-- **When the filesystem panics.** -/
theorem fsPayloadToManifest_panics_iff (p : Bytes) :
    fsPayloadToManifest F p = .error .panics ↔
      F.versioned p = some ⟨2, .empty⟩ ∧ F.manifestList p = none := by
  constructor
  · intro h
    unfold fsPayloadToManifest at h
    split at h
    · simp at h
    next v hv =>
      obtain ⟨version, mediaType⟩ := v
      dsimp only at h
      by_cases hversion : version ≠ 2
      · rw [if_neg hversion] at h
        split at h <;> cases h
      obtain rfl := not_not.1 hversion
      rw [if_neg (by decide), if_pos rfl] at h
      split at h
      · exact absurd h (decoded_ne_panics _)
      · exact absurd h (decoded_ne_panics _)
      · exact absurd h (decoded_ne_panics _)
      · exact absurd h (decoded_ne_panics _)
      · unfold manifestListUnmarshalJSON at h
        cases hl : F.manifestList p with
        | none => exact ⟨hv, rfl⟩
        | some l =>
          simp only [hl] at h
          split at h
          · cases h
          · exact absurd h (decoded_ne_panics _)
      · simp at h
  · rintro ⟨hv, hl⟩
    rcases fsPayloadToManifest_unnamed hv rfl rfl with ⟨-, h⟩ | ⟨l, hl', -⟩ | ⟨l, hl', -⟩
    · exact h
    · exact absurd (hl.symm.trans hl') (by simp)
    · exact absurd (hl.symm.trans hl') (by simp)

/-! ## Agreement -/

/-- The two read the same manifest, or none of them reads one. -/
def SameReading (r r' : Except GetError (Manifest Bytes)) : Prop :=
  (∃ m, r = .ok m ∧ r' = .ok m) ∨ ((∃ e, r = .error e) ∧ ∃ e, r' = .error e)

variable {row : Row Bytes}

/-- INTERNAL: a payload that names its type is read by that name. -/
theorem Recorded.named {d t m} (h : Recorded F d row t m) (hne : (versioned m).mediaType ≠ .empty) :
    SameReading (fsPayloadToManifest F row.payload) (dbPayloadToManifest F row) :=
  .inl ⟨m, fsPayloadToManifest_named h.decodes h.version hne,
    dbPayloadToManifest_named h.sound h.decodes hne⟩

/-- INTERNAL: the payload of a row that does not name its type is that of a list with manifests. -/
theorem Recorded.unnamed {d t m}
    (h : Recorded F d row t m) (he : (versioned m).mediaType = .empty) :
    SameReading (fsPayloadToManifest F row.payload) (dbPayloadToManifest F row) := by
  obtain ⟨l, hl, hsome, -, hdb⟩ := dbPayloadToManifest_unnamed h.sound h.decodes he
  refine .inl ⟨_, ?_, hdb⟩
  rcases fsPayloadToManifest_unnamed h.decodes.versioned_eq h.version he with
    ⟨hnone, -⟩ | ⟨l', hl', -, hfs⟩ | ⟨l', hl', hnil, -⟩
  · rw [hnone] at hl
    cases hl
  · cases hl.symm.trans hl'
    exact hfs
  · cases hl.symm.trans hl'
    exact absurd hnil hsome

theorem payload_eq_of_fromBytes {d} (h : RowSound F d row) (p : Bytes)
    (hd : d = F.fromBytes p) : row.payload = p := by
  have heq : F.fromBytes row.payload = F.fromBytes p := h.digest.trans hd
  simp only [Formats.fromBytes, Digest.mk.injEq, true_and] at heq
  exact F.hash_injective heq

/-- INTERNAL: **what the database has recorded is read alike.** -/
theorem Recorded.sameReading {d t m} (h : Recorded F d row t m) :
    SameReading (fsPayloadToManifest F row.payload) (dbPayloadToManifest F row) := by
  by_cases he : (versioned m).mediaType = .empty
  · exact h.unnamed he
  · exact h.named he

/-- **Where the two dispatches agree.** They read the same and none panics, if and only if a payload
of version 2 that names no type is decoded as a list. -/
theorem dispatch_agrees_iff {s : Store Bytes}
    (hs : Reach (step F cfg) (fun _ _ => True) Store.empty s) (p : Bytes) :
    ((∀ row, s.db.manifests (F.fromBytes p) = some row →
        SameReading (fsPayloadToManifest F p) (dbPayloadToManifest F row)) ∧
      fsPayloadToManifest F p ≠ .error .panics ∧
      ∀ row, dbPayloadToManifest F row ≠ .error .panics) ↔
    (F.versioned p = some ⟨2, .empty⟩ → ∃ l, F.manifestList p = some l) := by
  have hfs : fsPayloadToManifest F p ≠ .error .panics ↔
      (F.versioned p = some ⟨2, .empty⟩ → ∃ l, F.manifestList p = some l) := by
    rw [ne_eq, fsPayloadToManifest_panics_iff, not_and, ← ne_eq]
    exact imp_congr_right fun _ => Option.ne_none_iff_exists'
  rw [← hfs]
  refine ⟨fun h => h.2.1, fun h => ⟨fun row hrow => ?_, h, dbPayloadToManifest_ne_panics⟩⟩
  obtain ⟨t, m, hrec⟩ := recorded_of_reach hs _ row hrow
  obtain rfl := payload_eq_of_fromBytes hrec.sound p rfl
  exact hrec.sameReading

/-! ## A payload that names no type -/

/-- Formats with an image manifest that names no type and has a text for `manifests`. -/
def untypedFormats : Formats ℕ where
  hash := id
  hash_injective := Function.injective_id
  size := id
  versioned := fun _ => some ⟨2, .empty⟩
  schema2 := fun _ => none
  ocischema := fun _ => some ⟨⟨2, .empty⟩, blobOf .ociConfig 3, []⟩
  manifestList := fun _ => none
  schema2_versioned := by
    intro p m h
    cases h
  ocischema_versioned := by
    intro p m h
    cases h
    rfl
  manifestList_versioned := by
    intro p l h
    cases h
  signed := fun _ => none
  parseMediaType := indexFormats.parseMediaType
  name := indexFormats.name
  parse_name := indexFormats.parse_name
  name_no_comma := indexFormats.name_no_comma

/-- The answers to the upload of the image manifest and to a request for it, with metadata on the
filesystem. -/
def putThenGetImage : Response ℕ × Response ℕ :=
  let cfg := metadataIn false
  let contentType := untypedFormats.name .imageManifest
  let put := putManifest untypedFormats cfg ⟨.tag 0, contentType, 1⟩
    (uploadBlob untypedFormats cfg 3 Store.empty)
  (put.2, getManifest untypedFormats cfg ⟨.tag 0, [contentType], []⟩ put.1)

/-- **The image is accepted, and the request for it makes the filesystem panic.** -/
theorem untyped_image_panics : fsPayloadToManifest untypedFormats 1 = .error .panics ∧
    putThenGetImage = (.created ⟨.sha256, 1⟩, .aborted) :=
  ⟨rfl, by decide +kernel⟩

def typedIndexStore : Store ℕ :=
  (putManifest indexFormats (metadataIn true) (putIndex 1) (imageStored true)).1

/-- Both read an index that names its type. -/
theorem typed_index_agrees :
    (typedIndexStore.db.manifests ⟨.sha256, 1⟩).isSome = true ∧
      ∀ row, typedIndexStore.db.manifests ⟨.sha256, 1⟩ = some row →
        SameReading (fsPayloadToManifest indexFormats 1)
          (dbPayloadToManifest indexFormats row) := by
  have hreach : Reach (step indexFormats (metadataIn true)) (fun _ _ => True) Store.empty
      typedIndexStore := (reach_imageStored true).next (a := .put (putIndex 1)) trivial rfl
  refine ⟨by decide +kernel, ((dispatch_agrees_iff hreach 1).2 fun h => ?_).1⟩
  cases h

end ContainerRegistry.Analysis.Manifests
